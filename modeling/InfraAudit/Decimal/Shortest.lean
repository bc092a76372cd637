import InfraAudit.Decimal.Binary64

/-!
# InfraAudit.Decimal.Shortest — the fewest digits that read back

A binary64 number is written with the fewest decimal digits whose value rounds to it; of several such digit
strings the nearest to the number is taken.

* `shortest`: the digits and the place of the point.
* `Layout`: when a number is written positionally and when with an exponent.
-/

namespace InfraAudit.Decimal

/-- `0.d₁d₂… · 10 ^ point`, without trailing zero digits. -/
structure Digits where
  digits : List Char
  point : Int

/-- The exponent `k` with `10 ^ k ≤ num / den < 10 ^ (k + 1)`. -/
def decimalExponent (num den : Nat) : Int :=
  if den ≤ num then (Nat.toDigits 10 (num / den)).length - 1
  else -((Nat.toDigits 10 ((den + num - 1) / num - 1)).length : Int)

/-- An open or closed interval of quotients with the common denominator `den`, around `value`. -/
structure Interval where
  low : Nat
  value : Nat
  high : Nat
  den : Nat
  closed : Bool

/-- The numbers that round to `significand · 2 ^ exponent`: half a unit to both sides, a quarter below a power of
two, the ends included when the significand is even. -/
def roundingInterval (significand : Nat) (exponent : Int) : Interval :=
  let narrow := significand == pow2 52 && Binary64.leastExponent < exponent
  let low := 4 * significand - (if narrow then 1 else 2)
  let high := 4 * significand + 2
  let closed := significand % 2 == 0
  if 2 ≤ exponent then
    let unit := pow2 (exponent - 2).toNat
    ⟨low * unit, 4 * significand * unit, high * unit, 1, closed⟩
  else ⟨low, 4 * significand, high, pow2 (2 - exponent).toNat, closed⟩

/-- Whether `n · 10 ^ k` lies in the interval. -/
def Interval.holds (i : Interval) (n : Nat) (k : Int) : Bool :=
  let (a, d) := if 0 ≤ k then (n * pow10 k.toNat, 1) else (n, pow10 (-k).toNat)
  let x := a * i.den
  if i.closed then i.low * d ≤ x && x ≤ i.high * d else i.low * d < x && x < i.high * d

/-- The neighbour of the interval's value on the grid of multiples of `10 ^ k` that lies in the interval, the
nearer one if both do. -/
def Interval.onGrid? (i : Interval) (k : Int) : Option Nat :=
  let (n, d) := if 0 ≤ k then (i.value, i.den * pow10 k.toNat) else (i.value * pow10 (-k).toNat, i.den)
  let f := n / d
  match i.holds f k, i.holds (f + 1) k with
  | true, true => some (roundDiv n d)
  | true, false => some f
  | false, true => some (f + 1)
  | false, false => none

/-- The shortest digits on the grids from `count` digits on; `left` more grids are tried. -/
def Interval.shortestFrom (i : Interval) (k : Int) : (left : Nat) → (count : Int) → Nat × Int
  | 0, _ => (i.value / i.den, 0)
  | left + 1, count =>
    match i.onGrid? (k - count + 1) with
    | some n => (n, k - count + 1)
    | none => i.shortestFrom k left (count + 1)

/-- The digits of `n · 10 ^ k`. -/
def Digits.ofScaled (n : Nat) (k : Int) : Digits :=
  let text := Nat.toDigits 10 n
  ⟨(text.reverse.dropWhile (· == '0')).reverse, text.length + k⟩

/-- The shortest digits that read back as `significand · 2 ^ exponent`; 17 digits always do. -/
def shortest (significand : Nat) (exponent : Int) : Digits :=
  let i := roundingInterval significand exponent
  let (n, k) := i.shortestFrom (decimalExponent i.value i.den) 17 1
  .ofScaled n k

/-- How a number is laid out: positionally when its decimal exponent lies between the two bounds, otherwise with
an exponent of at least two digits. -/
structure Layout where
  leastPositional : Int
  greatestPositional : Int

/-- The layout of numbers in reports: positional from `10 ^ (-4)` to below `10 ^ 16`. -/
def Layout.standard : Layout := ⟨-4, 15⟩

/-- Digits laid out positionally, with at least one digit on each side of the point. -/
def Digits.positional (d : Digits) : List Char :=
  if d.point ≤ 0 then '0' :: '.' :: List.replicate (-d.point).toNat '0' ++ d.digits
  else
    let whole := d.point.toNat
    let part := d.digits.drop whole
    d.digits.take whole ++ List.replicate (whole - d.digits.length) '0' ++ '.' ::
      (if part.isEmpty then ['0'] else part)

/-- Digits laid out with one digit before the point and an exponent. -/
def Digits.scientific (d : Digits) : List Char :=
  let e := d.point - 1
  let size := Nat.toDigits 10 e.natAbs
  let tail := d.digits.drop 1
  d.digits.take 1 ++ (if tail.isEmpty then [] else '.' :: tail) ++ 'e' :: (if e < 0 then '-' else '+') ::
    (List.replicate (2 - size.length) '0' ++ size)

/-- A number's text: sign, then `inf` or its digits laid out. -/
def Binary64.text (layout : Layout) : Binary64 → String
  | .infinite negative => if negative then "-inf" else "inf"
  | .finite negative m e =>
    let d : Digits := if m == 0 then ⟨['0'], 1⟩ else shortest m e
    let body :=
      if layout.leastPositional ≤ d.point - 1 && d.point - 1 ≤ layout.greatestPositional then d.positional
      else d.scientific
    String.ofList (if negative then '-' :: body else body)

end InfraAudit.Decimal
