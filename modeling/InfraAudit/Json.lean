import InfraAudit.Text.Quoted

/-!
# InfraAudit.Json — writing JSON

Everything outside printable ASCII is escaped.  Without an indent a value is written on one line; with one, each
item stands on a line of its own.
-/

namespace InfraAudit

open InfraAudit.Text

/-- A JSON value; the fields of an object are in the order in which they are written. -/
inductive Json
  | string (s : String)
  | integer (n : Int)
  | bool (b : Bool)
  | array (items : List Json)
  | object (fields : List (String × Json))
  deriving Inhabited

namespace Json

/-- A code unit as an escape. -/
def unitEscape (n : Nat) : List Char :=
  '\\' :: 'u' :: hexText 4 n

/-- A character inside a string; one beyond the first plane is written as two code units. -/
def escapedChar (c : Char) : List Char :=
  let n := c.toNat
  if c == '"' || c == '\\' then ['\\', c]
  else if c == '\n' then ['\\', 'n']
  else if c == '\r' then ['\\', 'r']
  else if c == '\t' then ['\\', 't']
  else if n == 8 then ['\\', 'b']
  else if n == 12 then ['\\', 'f']
  else if 0x20 ≤ n && n < 0x7f then [c]
  else if n < 0x10000 then unitEscape n
  else unitEscape (0xd800 + (n - 0x10000) / 0x400) ++ unitEscape (0xdc00 + (n - 0x10000) % 0x400)

/-- A string between quotes. -/
def quotedString (s : String) : String :=
  String.ofList ('"' :: s.toList.flatMap escapedChar ++ ['"'])

/-- A new line with the indentation of a level. -/
def lineBreak (indent level : Nat) : String :=
  String.ofList ('\n' :: List.replicate (indent * level) ' ')

/-- Items between brackets, at a level of nesting. -/
def bracketed (indent : Option Nat) (level : Nat) (left right : String) (items : List String) : String :=
  if items.isEmpty then left ++ right
  else match indent with
    | none => left ++ ", ".intercalate items ++ right
    | some n =>
      left ++ lineBreak n (level + 1) ++ ("," ++ lineBreak n (level + 1)).intercalate items ++ lineBreak n level ++
        right

mutual

/-- A value at a level of nesting. -/
def renderAt (indent : Option Nat) (level : Nat) : Json → String
  | .string s => quotedString s
  | .integer n => toString n
  | .bool b => if b then "true" else "false"
  | .array items => bracketed indent level "[" "]" (renderItems indent (level + 1) items)
  | .object fields => bracketed indent level "\x7b" "\x7d" (renderFields indent (level + 1) fields)

/-- The items of an array. -/
def renderItems (indent : Option Nat) (level : Nat) : List Json → List String
  | [] => []
  | x :: xs => renderAt indent level x :: renderItems indent level xs

/-- The fields of an object. -/
def renderFields (indent : Option Nat) (level : Nat) : List (String × Json) → List String
  | [] => []
  | (k, x) :: xs => (quotedString k ++ ": " ++ renderAt indent level x) :: renderFields indent level xs

end

/-- The text of a value. -/
def render (indent : Option Nat) (x : Json) : String :=
  x.renderAt indent 0

end Json

end InfraAudit
