import InfraAudit.Hcl.Position

/-!
# InfraAudit.Hcl.Token — the words of the language

A token is what it says; a placed token adds where it stands.  The end of the text is no token: it is where the
list of tokens ends.
-/

namespace InfraAudit.Hcl

/-- The three kinds of brackets. -/
inductive Bracket
  | round
  | square
  | curly
  deriving DecidableEq, Inhabited

/-- A word of the language.  Strings and heredocs say whether they hold template sequences. -/
inductive Token
  | identifier (name : String)
  | number (literal : String)
  | string (value : String) (templated : Bool)
  | heredoc (value : String) (templated : Bool)
  | opening (b : Bracket)
  | closing (b : Bracket)
  | equals
  | comma
  | colon
  | dot
  | question
  | ellipsis
  | operator (symbol : String)
  | newline
  deriving DecidableEq, Inhabited

/-- A token with the position of its first character and the line of its last one. -/
structure PlacedToken where
  token : Token
  start : Position
  endLine : Nat
  deriving DecidableEq, Inhabited

/-- A comment with its delimiters, and the lines it spans. -/
structure Comment where
  text : String
  line : Nat
  endLine : Nat
  deriving DecidableEq, Inhabited

/-- An opening bracket in messages. -/
def Bracket.openingText : Bracket → String
  | .round => "'('"
  | .square => "'['"
  | .curly => "'\x7b'"

/-- A closing bracket in messages. -/
def Bracket.closingText : Bracket → String
  | .round => "')'"
  | .square => "']'"
  | .curly => "'\x7d'"

/-- A token in messages. -/
def Token.describe : Token → String
  | .identifier name => s!"identifier '{name}'"
  | .number literal => s!"number '{literal}'"
  | .string value _ => s!"string \"{value}\""
  | .heredoc _ _ => "heredoc"
  | .opening b => b.openingText
  | .closing b => b.closingText
  | .equals => "'='"
  | .comma => "','"
  | .colon => "':'"
  | .dot => "'.'"
  | .question => "'?'"
  | .ellipsis => "'...'"
  | .operator symbol => s!"operator '{symbol}'"
  | .newline => "newline"

/-- A token or the end of the text in messages. -/
def describe : Option Token → String
  | some t => t.describe
  | none => "end of file"

end InfraAudit.Hcl
