import InfraAudit.Text.Blank
import InfraAudit.Text.Case
import InfraAudit.Yaml.Fault

/-!
# InfraAudit.Yaml.Number — whole and real numbers

Underscores in numbers count for nothing.  A number with colons is written in base 60.

* `Number.integer`: the whole number that a text denotes: binary, octal, decimal, hexadecimal or in base 60.
* `Number.real`: the real number that a text denotes, which may be no number at all.
-/

namespace InfraAudit.Yaml.Number

open InfraAudit.Decimal InfraAudit.Text

/-- White space around a number. -/
def isSpace (c : Char) : Bool :=
  c == ' ' || (9 ≤ c.toNat && c.toNat ≤ 13)

/-- A character as it counts in numbers: digits of other scripts as their value, other white space as a space. -/
def plainChar (c : Char) : Char :=
  if c.toNat < 128 then c
  else if isBlank c then ' '
  else ((decimalDigit? c).map Nat.digitChar).getD '?'

/-- Whether a minus stands in front, and the text behind the sign. -/
def splitSign : List Char → Bool × List Char
  | '-' :: r => (true, r)
  | '+' :: r => (false, r)
  | r => (false, r)

/-- The parts of a text between colons. -/
def parts (s : List Char) : List String :=
  (s.splitOn ':').map String.ofList

/-- The text without underscores, which must not be empty. -/
def withoutUnderscores (s : String) : Except Fault (List Char) :=
  match s.toList.filter (· != '_') with
  | [] => .error .noDigits
  | cs => .ok cs

/-! ### Whole numbers -/

/-- The text behind the mark of a base. -/
def behindMark (base : Nat) (s : List Char) : List Char :=
  match s with
  | '0' :: c :: r =>
    if (base = 2 ∧ (c = 'b' ∨ c = 'B')) ∨ (base = 8 ∧ (c = 'o' ∨ c = 'O')) ∨ (base = 16 ∧ (c = 'x' ∨ c = 'X')) then r
    else s
  | _ => s

/-- Whether a character is a digit in a base up to 16. -/
def isDigitOf (base : Nat) (c : Char) : Bool :=
  isHexDigit c && hexDigitValue c < base

/-- The number that a text denotes in a base, perhaps with the mark of the base, a sign and white space around it.
Decimal digits must not be too many. -/
def inBase (base : Nat) (text : String) : Except Fault Int :=
  let (negative, s) := splitSign ((text.toList.map plainChar).dropWhile isSpace)
  let s := behindMark base s
  let digits := s.takeWhile (isDigitOf base)
  if base = 10 ∧ digitLimit < digits.length then .error (.oversized ⟨digits.length⟩)
  else if digits.isEmpty ∨ !(s.drop digits.length).all isSpace then .error (.badInteger base text)
  else
    let n := digits.foldl (fun n c => base * n + hexDigitValue c) 0
    .ok (if negative then -n else n)

/-- The number that a text without sign denotes. -/
def unsigned (s : List Char) : Except Fault Int :=
  match s with
  | [] => .error .noDigits
  | ['0'] => .ok 0
  | '0' :: 'b' :: r => inBase 2 (String.ofList r)
  | '0' :: 'x' :: r => inBase 16 (String.ofList r)
  | '0' :: r => inBase 8 (String.ofList ('0' :: r))
  | s => ((parts s).mapM (inBase 10)).map fun ns => ns.foldl (fun n m => 60 * n + m) 0

/-- The whole number that a text denotes. -/
def integer (s : String) : Except Fault Int := do
  let (negative, cs) := splitSign (← withoutUnderscores s)
  let n ← unsigned cs
  return if negative then -n else n

/-! ### Real numbers -/

/-- Whether a text is made of digits with at most one point, and perhaps an exponent behind them. -/
def isReal (s : List Char) : Bool :=
  let isMark (c : Char) : Bool := c == 'e' || c == 'E'
  let whole := s.takeWhile isDigit
  let (part, r) := match s.drop whole.length with
    | '.' :: r => (r.takeWhile isDigit, r.dropWhile isDigit)
    | r => ([], r)
  let isExponent := match r with
    | [] => true
    | c :: r =>
      let digits := (splitSign r).2
      isMark c && !digits.isEmpty && digits.all isDigit
  !(whole.isEmpty && part.isEmpty) && isExponent

/-- The words for infinity, and the word for no number, in any case. -/
def infinityWords : List String := ["inf", "infinity"]

/-- The number that a text denotes, perhaps with a sign and white space around it. -/
def decimal (text : String) : Except Fault (Option Binary64) :=
  let (negative, s) := splitSign (trim isSpace (text.toList.map plainChar))
  let word := String.ofList (s.map Char.toLower)
  if infinityWords.contains word then .ok (some (.infinite negative))
  else if word = "nan" then .ok none
  else if isReal s then
    let x := Numeral.realOf s
    .ok (some (if negative then x.neg else x))
  else .error (.badReal text)

/-- A sum with more numbers, the first of which counts `base`-fold, the next one sixty times as much. -/
def sumSixties (base : Nat) (sum : Option Binary64) : List (Option Binary64) → Except Fault (Option Binary64)
  | [] => .ok sum
  | x :: rest =>
    match Binary64.ofNat base with
    | .infinite _ => .error .realOverflow
    | scale => sumSixties (60 * base) (do (← sum).add (← (← x).mul scale)) rest

/-- What a text denotes that is a real number by its kind: a binary64 number, what is no number and has a word for
it, or something else that is no number. -/
inductive Real
  | number (x : Binary64)
  | named
  | nameless

/-- The real number with a sign. -/
def Real.ofSigned (negative : Bool) : Option Binary64 → Real
  | some x => .number (if negative then x.neg else x)
  | none => .nameless

/-- The real number that a text denotes. -/
def real (s : String) : Except Fault Real := do
  let word := lower (String.ofList (← withoutUnderscores s))
  let (negative, cs) := splitSign word.toList
  match String.ofList cs with
  | ".inf" => return .ofSigned negative (some (.infinite false))
  | ".nan" => return .named
  | word =>
    if cs.contains ':' then
      let xs ← (parts cs).mapM decimal
      return .ofSigned negative (← sumSixties 1 (some (.ofNat 0)) xs.reverse)
    else return .ofSigned negative (← decimal word)

end InfraAudit.Yaml.Number
