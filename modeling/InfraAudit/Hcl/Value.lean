import InfraAudit.Decimal.Numeral
import InfraAudit.Keyed

/-!
# InfraAudit.Hcl.Value — what an expression stands for

Literals and the lists and maps built from them have values; everything that needs evaluation is `unresolved`.
The accessors give nothing for a value of another kind, so what is not known equals nothing.
-/

namespace InfraAudit.Hcl

open InfraAudit.Decimal

/-- The value of an expression.  The keys of a map are distinct and in order of first occurrence. -/
inductive Value
  | unresolved
  | string (s : String)
  | number (n : Numeral)
  | bool (b : Bool)
  | list (items : List Value)
  | map (entries : List (String × Value))
  deriving Inhabited

/-- Plain data, in which what is not known is `null`. -/
inductive Plain
  | null
  | string (s : String)
  | number (n : Numeral)
  | bool (b : Bool)
  | list (items : List Plain)
  | map (entries : List (String × Plain))
  deriving Inhabited

/-- Plain data that a value is compared with. -/
inductive Literal
  | string (s : String)
  | number (n : Numeral)
  | bool (b : Bool)
  deriving DecidableEq

namespace Value

/-! ### Accessors -/

/-- Whether the value is known. -/
def isResolved : Value → Bool
  | .unresolved => false
  | _ => true

/-- The text of a string. -/
def string? : Value → Option String
  | .string s => some s
  | _ => none

/-- The number of a number. -/
def number? : Value → Option Numeral
  | .number n => some n
  | _ => none

/-- The truth value of a boolean. -/
def bool? : Value → Option Bool
  | .bool b => some b
  | _ => none

/-- The items of a list. -/
def list? : Value → Option (List Value)
  | .list items => some items
  | _ => none

/-- The entries of a map. -/
def map? : Value → Option (List (String × Value))
  | .map entries => some entries
  | _ => none

/-- The texts that the value holds: of a string itself, of a list those of its items that are strings. -/
def strings : Value → List String
  | .string s => [s]
  | .list items => items.filterMap string?
  | _ => []

/-- Comparison with plain data; a value of another kind, or one that is not known, equals nothing. -/
def equals : Value → Literal → Bool
  | .string s, .string t => s == t
  | .number m, .number n => m.same n
  | .bool a, .bool b => a == b
  | _, _ => false

/-! ### Equality, text and plain data -/

mutual

/-- Equality of values: numbers by value, maps without regard to order. -/
def same : Value → Value → Bool
  | .unresolved, .unresolved => true
  | .string s, .string t => s == t
  | .number m, .number n => m.same n
  | .bool a, .bool b => a == b
  | .list xs, .list ys => sameItems xs ys
  | .map xs, .map ys => xs.length == ys.length && sameEntries xs ys
  | _, _ => false

/-- Lists of equal values in the same order. -/
def sameItems : List Value → List Value → Bool
  | [], [] => true
  | x :: xs, y :: ys => same x y && sameItems xs ys
  | _, _ => false

/-- Whether every entry of the first map has an equal one in the second. -/
def sameEntries : List (String × Value) → List (String × Value) → Bool
  | [], _ => true
  | (k, x) :: xs, ys => (match ys.lookup k with | some y => same x y | none => false) && sameEntries xs ys

end

mutual

/-- A value in messages. -/
def text : Value → String
  | .unresolved => "<unresolved>"
  | .string s => "\"" ++ s ++ "\""
  | .number n => n.text
  | .bool b => if b then "true" else "false"
  | .list items => "[" ++ ", ".intercalate (textItems items) ++ "]"
  | .map entries => "\x7b" ++ ", ".intercalate (textEntries entries) ++ "\x7d"

/-- The texts of the items of a list. -/
def textItems : List Value → List String
  | [] => []
  | x :: xs => text x :: textItems xs

/-- The texts of the entries of a map. -/
def textEntries : List (String × Value) → List String
  | [] => []
  | (k, x) :: xs => (k ++ " = " ++ text x) :: textEntries xs

end

mutual

/-- The value as plain data. -/
def plain : Value → Plain
  | .unresolved => .null
  | .string s => .string s
  | .number n => .number n
  | .bool b => .bool b
  | .list items => .list (plainItems items)
  | .map entries => .map (plainEntries entries)

/-- The items of a list as plain data. -/
def plainItems : List Value → List Plain
  | [] => []
  | x :: xs => plain x :: plainItems xs

/-- The entries of a map as plain data. -/
def plainEntries : List (String × Value) → List (String × Plain)
  | [] => []
  | (k, x) :: xs => (k, plain x) :: plainEntries xs

end

end Value

end InfraAudit.Hcl
