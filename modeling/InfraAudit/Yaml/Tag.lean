import InfraAudit.Yaml.Moment

/-!
# InfraAudit.Yaml.Tag — what kind of value a node is

* `Tag.ofName`: the kind that a written tag names.
* `Tag.ofPlain`: the kind of a plain scalar, which its text tells.
-/

namespace InfraAudit.Yaml

open InfraAudit.Text

/-- A kind of value; `merge` and `value` mark keys with a meaning of their own. -/
inductive Tag
  | null
  | bool
  | integer
  | real
  | bytes
  | moment
  | text
  | list
  | map
  | set
  | orderedMap
  | pairs
  | merge
  | value
  | unknown
  deriving DecidableEq

namespace Tag

/-- What the tags of the common kinds start with. -/
def common : String := "tag:yaml.org,2002:"

/-- The tags of the kinds. -/
def names : List (String × Tag) :=
  [("null", .null), ("bool", .bool), ("int", .integer), ("float", .real), ("binary", .bytes), ("timestamp", .moment),
   ("str", .text), ("seq", .list), ("map", .map), ("set", .set), ("omap", .orderedMap), ("pairs", .pairs),
   ("merge", .merge), ("value", .value)].map fun (name, tag) => (common ++ name, tag)

/-- The kind that a tag names. -/
def ofName (name : String) : Tag :=
  (names.lookup name).getD .unknown

/-! ### Plain scalars -/

/-- The words for nothing. -/
def nullWords : List String := ["~", "null", "Null", "NULL"]

/-- The words for truth and falsehood. -/
def boolWords : List String :=
  ["yes", "Yes", "YES", "no", "No", "NO", "true", "True", "TRUE", "false", "False", "FALSE", "on", "On", "ON", "off",
   "Off", "OFF"]

/-- The text behind a sign, if one stands in front. -/
def unsigned : List Char → List Char
  | '-' :: r => r
  | '+' :: r => r
  | r => r

/-- Whether all characters are underscores or belong to a class, and there are some. -/
def areDigits (p : Char → Bool) (ds : List Char) : Bool :=
  !ds.isEmpty && ds.all fun c => c == '_' || p c

/-- Whether the text starts with a digit and goes on with digits and underscores. -/
def isCount (s : List Char) : Bool :=
  s.head?.any isDigit && areDigits isDigit s

/-- Whether the text is a group of a number in base 60. -/
def isSixtieth (g : List Char) : Bool :=
  g.all isDigit && (g.length == 1 || (g.length == 2 && g.head?.any (· ≤ '5')))

/-- Whether the text is a number in base 60, with a colon at least. -/
def isSexagesimal (s : List Char) : Bool :=
  match s.splitOn ':' with
  | first :: second :: rest => isCount first && (second :: rest).all isSixtieth
  | _ => false

/-- Whether the text is a whole number: binary, octal, decimal, hexadecimal or in base 60. -/
def isInteger (s : List Char) : Bool :=
  match unsigned s with
  | ['0'] => true
  | '0' :: 'b' :: r => areDigits (fun c => c == '0' || c == '1') r
  | '0' :: 'x' :: r => areDigits isHexDigit r
  | '0' :: r => areDigits (fun c => '0' ≤ c && c ≤ '7') r
  | r => isCount r || isSexagesimal r

/-- Whether the text is an exponent with its sign, or nothing. -/
def isExponent : List Char → Bool
  | [] => true
  | e :: sign :: d :: ds =>
    (e == 'e' || e == 'E') && (sign == '+' || sign == '-') && (d :: ds).all isDigit
  | _ => false

/-- Digits and underscores. -/
def isPart (c : Char) : Bool :=
  isDigit c || c == '_'

/-- Whether the text is a number with a point, infinity or no number at all. -/
def isReal (s : List Char) : Bool :=
  let r := unsigned s
  let whole := r.takeWhile (· != '.')
  match r.dropWhile (· != '.') with
  | _ :: part =>
    let plain := isExponent (part.dropWhile isPart)
    if whole.isEmpty then
      ["inf", "Inf", "INF"].contains (String.ofList part) ||
        (r.length == s.length && (["nan", "NaN", "NAN"].contains (String.ofList part) ||
          (part.head?.any isDigit && plain)))
    else (isCount whole && plain) || (isSexagesimal whole && part.all isPart)
  | [] => false

/-- The text without a line end at its end. -/
def withoutLineEnd (s : List Char) : List Char :=
  if s.getLast? = some '\n' then s.dropLast else s

/-- The kind of a scalar without quotes and tag.  A line end at its end makes no difference. -/
def ofPlain (text : String) : Tag :=
  let cs := withoutLineEnd text.toList
  let word := String.ofList cs
  if text = "" ∨ nullWords.contains word then .null
  else if boolWords.contains word then .bool
  else if isReal cs then .real
  else if isInteger cs then .integer
  else if word = "<<" then .merge
  else if Stamp.isPlain cs then .moment
  else if word = "=" then .value
  else .text

end Tag

end InfraAudit.Yaml
