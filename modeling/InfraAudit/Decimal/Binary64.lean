/-!
# InfraAudit.Decimal.Binary64 — exact binary64 numbers

A finite number is `± significand · 2 ^ exponent` in canonical form: a significand below `2 ^ 53`, and at least
`2 ^ 52` unless the exponent is the least one, `-1074`.

* `pow2`, `pow10`: the two scales between which numbers are converted.
* `ofRatio`: the nearest number to a quotient, a tie going to the even significand.
* `ofDecimal`: the nearest number to `m · 10 ^ e`.
* `add`, `mul`: the nearest number to a sum and to a product.
-/

namespace InfraAudit.Decimal

/-- A power of two. -/
def pow2 (n : Nat) : Nat := Nat.pow 2 n

/-- A power of ten. -/
def pow10 (n : Nat) : Nat := Nat.pow 10 n

/-- A binary64 number other than a NaN. -/
inductive Binary64
  | finite (negative : Bool) (significand : Nat) (exponent : Int)
  | infinite (negative : Bool)
  deriving DecidableEq, Inhabited

/-- The quotient rounded to the nearest natural number, a tie going to the even one. -/
def roundDiv (num den : Nat) : Nat :=
  let q := num / den
  let r := 2 * (num % den)
  if r < den then q else if den < r then q + 1 else q + q % 2

namespace Binary64

/-- The least exponent of a canonical number. -/
def leastExponent : Int := -1074

/-- The greatest exponent of a canonical number. -/
def greatestExponent : Int := 971

/-- The quotient `num / den` in units of `2 ^ exponent`, as numerator and denominator. -/
def scaled (num den : Nat) (exponent : Int) : Nat × Nat :=
  if 0 ≤ exponent then (num, den * pow2 exponent.toNat) else (num * pow2 (-exponent).toNat, den)

/-- The exponent in whose unit `num / den` has 53 binary digits, but at least the least exponent. -/
def unitExponent (num den : Nat) : Int :=
  let guess := max leastExponent ((Nat.log2 num : Int) - Nat.log2 den - 52)
  let (n, d) := scaled num den guess
  if n < d * pow2 52 then max leastExponent (guess - 1) else guess

/-- A rounded significand put into canonical form; past the greatest exponent the number is infinite. -/
def normalized (negative : Bool) (significand : Nat) (exponent : Int) : Binary64 :=
  let carried := significand == pow2 53
  let s := if carried then pow2 52 else significand
  let e := if carried then exponent + 1 else exponent
  if greatestExponent < e then .infinite negative else .finite negative s e

/-- The number nearest to `num / den`. -/
def ofRatio (negative : Bool) (num den : Nat) : Binary64 :=
  if num == 0 then .finite negative 0 leastExponent
  else
    let e := unitExponent num den
    let (n, d) := scaled num den e
    normalized negative (roundDiv n d) e

/-- The number nearest to `± digits · 10 ^ exponent`.  From `10 ^ 310` on it is infinite and below `10 ^ (-330)`
zero, whatever the digits. -/
def ofDecimal (negative : Bool) (digits : Nat) (exponent : Int) : Binary64 :=
  let size := (Nat.toDigits 10 digits).length + exponent
  if digits == 0 || size < -330 then .finite negative 0 leastExponent
  else if 310 < size then .infinite negative
  else if 0 ≤ exponent then ofRatio negative (digits * pow10 exponent.toNat) 1
  else ofRatio negative digits (pow10 (-exponent).toNat)

/-- The number with the opposite sign. -/
def neg : Binary64 → Binary64
  | .finite s m e => .finite (!s) m e
  | .infinite s => .infinite (!s)

/-- Equality of values: the two zeros are equal. -/
def same : Binary64 → Binary64 → Bool
  | .finite s m e, .finite s' m' e' => m == m' && (m == 0 || (s == s' && e == e'))
  | .infinite s, .infinite s' => s == s'
  | _, _ => false

/-- Whether a number is below zero or the zero below zero. -/
def isNegative : Binary64 → Bool
  | .finite s _ _ => s
  | .infinite s => s

/-- Whether a number is one of the two zeros. -/
def isZero : Binary64 → Bool
  | .finite _ m _ => m == 0
  | .infinite _ => false

/-- A finite number in units of the least positive one. -/
def units? : Binary64 → Option Int
  | .finite s m e =>
    let n := m * pow2 (e - leastExponent).toNat
    some (if s then -n else n)
  | .infinite _ => none

/-- The number of the least positive numbers in one. -/
def unitsInOne : Nat := pow2 (-leastExponent).toNat

/-- The sum; none for opposite infinities.  A sum of zero is negative only if both numbers are. -/
def add (x y : Binary64) : Option Binary64 :=
  match x.units?, y.units? with
  | some m, some n =>
    let negative := if m + n = 0 then x.isNegative && y.isNegative else m + n < 0
    some (ofRatio negative (m + n).natAbs unitsInOne)
  | none, some _ => some x
  | some _, none => some y
  | none, none => if x = y then some x else none

/-- The product; none for an infinity and a zero. -/
def mul (x y : Binary64) : Option Binary64 :=
  let negative := x.isNegative != y.isNegative
  match x.units?, y.units? with
  | some m, some n => some (ofRatio negative (m.natAbs * n.natAbs) (unitsInOne * unitsInOne))
  | _, _ => if x.isZero || y.isZero then none else some (.infinite negative)

/-- The number nearest to a natural number. -/
def ofNat (n : Nat) : Binary64 :=
  ofRatio false n 1

/-- Whether the number is the integer `n`. -/
def isInt (x : Binary64) (n : Int) : Bool :=
  match x with
  | .infinite _ => false
  | .finite s m e =>
    let signed : Int := if s then -m else m
    if 0 ≤ e then signed * pow2 e.toNat == n else signed == n * pow2 (-e).toNat

end Binary64

end InfraAudit.Decimal
