import InfraAudit.Decimal.Shortest
import InfraAudit.Text.Word

/-!
# InfraAudit.Decimal.Numeral — the numbers of a configuration

A literal with a point or an exponent is a binary64 number, any other an integer of any size.  An integer literal
longer than `digitLimit` digits is refused.  The two kinds compare by value.
-/

namespace InfraAudit.Decimal

open InfraAudit.Text

/-- A number: an integer of any size or a binary64 number. -/
inductive Numeral
  | integer (n : Int)
  | real (x : Binary64)
  deriving DecidableEq, Inhabited

/-- An integer literal too long to be read. -/
structure OversizedInteger where
  digits : Nat
  deriving DecidableEq

/-- The greatest number of digits of an integer literal. -/
def digitLimit : Nat := 4300

/-- What is said about an integer literal that is too long. -/
def OversizedInteger.message (e : OversizedInteger) : String :=
  s!"Exceeds the limit ({digitLimit} digits) for integer string conversion: value has {e.digits} digits; " ++
    "use sys.set_int_max_str_digits() to increase the limit"

namespace Numeral

/-- The exponent part of a literal, its mark included: a signed number, or zero when there is none. -/
def exponentOf : List Char → Int
  | _ :: '-' :: ds => -(decimalValue ds : Int)
  | _ :: '+' :: ds => decimalValue ds
  | _ :: ds => decimalValue ds
  | [] => 0

/-- The binary64 number of a literal `digits[.digits][e[±]digits]`. -/
def realOf (literal : List Char) : Binary64 :=
  let isMark (c : Char) : Bool := c == 'e' || c == 'E'
  let mantissa := literal.takeWhile (!isMark ·)
  let exponent := exponentOf (literal.dropWhile (!isMark ·))
  let whole := mantissa.takeWhile isDigit
  let part := (mantissa.dropWhile isDigit).drop 1
  .ofDecimal false (decimalValue (whole ++ part)) (exponent - part.length)

/-- The number that a literal denotes. -/
def ofLiteral (literal : String) : Except OversizedInteger Numeral :=
  let cs := literal.toList
  if cs.any fun c => c == '.' || c == 'e' || c == 'E' then .ok (.real (realOf cs))
  else if digitLimit < cs.length then .error ⟨cs.length⟩
  else .ok (.integer (decimalValue cs))

/-- The number with the opposite sign. -/
def neg : Numeral → Numeral
  | .integer n => .integer (-n)
  | .real x => .real x.neg

/-- Equality of values. -/
def same : Numeral → Numeral → Bool
  | .integer m, .integer n => m == n
  | .integer m, .real x => x.isInt m
  | .real x, .integer n => x.isInt n
  | .real x, .real y => x.same y

/-- The text of a number. -/
def text : Numeral → String
  | .integer n => toString n
  | .real x => x.text .standard

end Numeral

end InfraAudit.Decimal
