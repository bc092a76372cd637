/-!
# InfraAudit.Hcl.Template — template sequences in text

`${` and `%{` start a template sequence; doubling the mark (`$${`, `%%{`) stands for the two characters themselves.
-/

namespace InfraAudit.Hcl.Template

/-- The characters that mark a template sequence. -/
def isMark (c : Char) : Bool :=
  c == '$' || c == '%'

/-- Whether the text holds a template sequence whose mark is not doubled. -/
def contains : List Char → Bool
  | c :: d :: e :: r =>
    if isMark c && d == c && e == '{' then contains r
    else isMark c && d == '{' || contains (d :: e :: r)
  | [c, d] => isMark c && d == '{'
  | _ => false

/-- The text with every doubled mark before a brace written once. -/
def unescape : List Char → List Char
  | c :: d :: e :: r =>
    if isMark c && d == c && e == '{' then c :: '{' :: unescape r else c :: unescape (d :: e :: r)
  | s => s

end InfraAudit.Hcl.Template
