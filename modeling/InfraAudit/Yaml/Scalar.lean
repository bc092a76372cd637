import InfraAudit.Yaml.Moment

/-!
# InfraAudit.Yaml.Scalar — values without parts

* `Scalar.text`: the text of a scalar.
* `Scalar.same`: equality of scalars as keys.
-/

namespace InfraAudit.Yaml

open InfraAudit.Decimal InfraAudit.Text

/-- A value without parts.  What is no number equals only itself: `node` is the number of its node, and none is there
for the one that has a word of its own. -/
inductive Scalar
  | null
  | bool (b : Bool)
  | integer (n : Int)
  | real (x : Binary64)
  | notANumber (node : Option Nat)
  | text (s : String)
  | bytes (bs : List UInt8)
  | moment (m : Moment)
  deriving DecidableEq, Inhabited

namespace Scalar

/-- The number that a scalar counts as: true is one and false is zero. -/
def number? : Scalar → Option Numeral
  | .bool b => some (.integer (if b then 1 else 0))
  | .integer n => some (.integer n)
  | .real x => some (.real x)
  | _ => none

/-- Equality as keys: numbers are compared by value, moments as instants. -/
def same (a b : Scalar) : Bool :=
  match a.number?, b.number? with
  | some m, some n => m.same n
  | _, _ => match a, b with
    | .moment m, .moment n => m.same n
    | a, b => a == b

/-- The text of a whole number, which must not have too many digits. -/
def integerText (n : Int) : Except Fault String :=
  let s := toString n
  if digitLimit < (toString n.natAbs).length then .error .unwritable else .ok s

/-- The text of a scalar. -/
def toText : Scalar → Except Fault String
  | .null => .ok "None"
  | .bool b => .ok (if b then "True" else "False")
  | .integer n => integerText n
  | .real x => .ok (x.text .standard)
  | .notANumber _ => .ok "nan"
  | .text s => .ok s
  | .bytes bs => .ok (quotedBytes bs)
  | .moment m => .ok m.text

end Scalar

end InfraAudit.Yaml
