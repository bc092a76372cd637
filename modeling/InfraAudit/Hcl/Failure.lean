import InfraAudit.Decimal.Numeral
import InfraAudit.Hcl.Token
import InfraAudit.SourceRange
import InfraAudit.Text.Quoted

/-!
# InfraAudit.Hcl.Failure — why a text is no configuration

`SyntaxCause` lists the faults of a text, `Failure` the ways in which reading one stops: a fault at a position, or
a literal that no value can hold.
-/

namespace InfraAudit.Hcl

open InfraAudit.Decimal InfraAudit.Text

/-- A fault of a text. -/
inductive SyntaxCause
  | unexpectedCharacter (c : Char)
  | unterminatedComment
  | unterminatedString
  | unterminatedTemplate
  | unterminatedHeredoc (marker : String)
  | invalidHeredoc
  | invalidEscape (c : Char)
  | invalidUnicodeEscape (letter : Char) (digits : String)
  | invalidCodePoint (letter : Char) (digits : String)
  | unclosedBlock (name : String) (line : Nat)
  | unclosedBracket (b : Bracket)
  | unexpectedClosing (b : Bracket)
  | expectedItem (found : Option Token)
  | expectedDefinition (name : String) (found : Option Token)
  | expectedOpening (kind : String) (found : Option Token)
  | expectedValue (name : String)
  | templatedLabel
  | redefined (name : String) (line : Nat)
  deriving DecidableEq

/-- What is said about a fault. -/
def SyntaxCause.message : SyntaxCause → String
  | .unexpectedCharacter c => "Unexpected character " ++ quoted c.toString
  | .unterminatedComment => "Unterminated comment"
  | .unterminatedString => "Unterminated string"
  | .unterminatedTemplate => "Unterminated template sequence"
  | .unterminatedHeredoc marker => s!"Unterminated heredoc, expected closing '{marker}'"
  | .invalidHeredoc => "Invalid heredoc: expected an identifier after '<<'"
  | .invalidEscape c => s!"Invalid escape sequence '\\{c}'"
  | .invalidUnicodeEscape letter digits => s!"Invalid unicode escape sequence '\\{letter}{digits}'"
  | .invalidCodePoint letter digits => s!"Invalid unicode code point '\\{letter}{digits}'"
  | .unclosedBlock name line => s!"Unclosed block '{name}' opened on line {line}"
  | .unclosedBracket b => "Unclosed " ++ b.openingText
  | .unexpectedClosing b => "Unexpected " ++ b.closingText
  | .expectedItem found => "Expected an attribute or block, found " ++ describe found
  | .expectedDefinition name found => s!"Expected '=' or a block after '{name}', found " ++ describe found
  | .expectedOpening kind found => s!"Expected '\x7b' to open block '{kind}', found " ++ describe found
  | .expectedValue name => s!"Expected a value for attribute '{name}'"
  | .templatedLabel => "Template sequences are not allowed in block labels"
  | .redefined name line => s!"Attribute '{name}' redefined (first defined on line {line})"

/-- Why reading a text stopped. -/
inductive Failure
  | badSyntax (place : Position) (cause : SyntaxCause)
  | codePointOverflow
  | oversizedInteger (e : OversizedInteger)
  | badRange (e : RangeError)
  deriving DecidableEq

/-- What is said about a failure in the file `filename`. -/
def Failure.message (filename : String) : Failure → String
  | .badSyntax place cause => s!"{filename}:{place.line}:{place.column}: " ++ cause.message
  | .codePointOverflow => "Python int too large to convert to C int"
  | .oversizedInteger e => e.message
  | .badRange e => e.message

end InfraAudit.Hcl
