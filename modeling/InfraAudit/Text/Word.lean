import InfraAudit.Text.WordTable

/-!
# InfraAudit.Text.Word — word characters, digits and identifiers

An identifier starts with a word character that is no decimal digit and goes on with word characters and hyphens.
-/

namespace InfraAudit.Text

/-- Letters of all scripts, characters with a numeric value and the underscore. -/
def isWordChar (c : Char) : Bool :=
  inRanges c.toNat wordRanges

/-- Decimal digits of all scripts. -/
def isDecimal (c : Char) : Bool :=
  inRanges c.toNat decimalRanges

/-- The ten ASCII digits. -/
def isDigit (c : Char) : Bool :=
  '0' ≤ c && c ≤ '9'

/-- The sixteen hexadecimal digits, letters in either case. -/
def isHexDigit (c : Char) : Bool :=
  isDigit c || ('a' ≤ c && c ≤ 'f') || ('A' ≤ c && c ≤ 'F')

/-- ASCII letters. -/
def isLatinLetter (c : Char) : Bool :=
  ('a' ≤ c && c ≤ 'z') || ('A' ≤ c && c ≤ 'Z')

/-- First character of an identifier. -/
def isIdentStart (c : Char) : Bool :=
  isWordChar c && !isDecimal c

/-- Later character of an identifier. -/
def isIdentPart (c : Char) : Bool :=
  isWordChar c || c == '-'

/-- The value of a hexadecimal digit; other characters count as zero. -/
def hexDigitValue (c : Char) : Nat :=
  if isDigit c then c.toNat - 48
  else if 'a' ≤ c && c ≤ 'f' then c.toNat - 87
  else if 'A' ≤ c && c ≤ 'F' then c.toNat - 55
  else 0

/-- The number that hexadecimal digits denote. -/
def hexValue (digits : List Char) : Nat :=
  digits.foldl (fun n c => 16 * n + hexDigitValue c) 0

/-- The value of a decimal digit of any script; other characters have none. -/
def decimalDigit? (c : Char) : Option Nat :=
  (decimalRanges.find? fun r => r.1 ≤ c.toNat && c.toNat ≤ r.2).map fun r => (c.toNat - r.1) % 10

/-- The number that decimal digits denote. -/
def decimalValue (digits : List Char) : Nat :=
  digits.foldl (fun n c => 10 * n + (c.toNat - 48)) 0

end InfraAudit.Text
