import InfraAudit.Text.PrintTable

/-!
# InfraAudit.Text.Quoted — text shown in messages

`quoted` writes a text between quotes on one line: single quotes, or double quotes around a text that holds a
single quote and no double one; backslash, the quote in use and characters that do not print are escaped.
`quotedBytes` does the same with bytes.
-/

namespace InfraAudit.Text

/-- Characters that can be shown as they are. -/
def isPrintable (c : Char) : Bool :=
  inRanges c.toNat printRanges

/-- A number in lower-case hexadecimal, at least `width` digits wide. -/
def hexText (width n : Nat) : List Char :=
  let digits := Nat.toDigits 16 n
  List.replicate (width - digits.length) '0' ++ digits

/-- One character of a quoted text. -/
def quotedChar (quote c : Char) : List Char :=
  if c == quote || c == '\\' then ['\\', c]
  else if c == '\n' then ['\\', 'n']
  else if c == '\r' then ['\\', 'r']
  else if c == '\t' then ['\\', 't']
  else if isPrintable c then [c]
  else if c.toNat < 0x100 then '\\' :: 'x' :: hexText 2 c.toNat
  else if c.toNat < 0x10000 then '\\' :: 'u' :: hexText 4 c.toNat
  else '\\' :: 'U' :: hexText 8 c.toNat

/-- The quote for a text. -/
def quoteFor (s : List Char) : Char :=
  if s.contains '\'' && !s.contains '"' then '"' else '\''

/-- The text between quotes, on one line. -/
def quoted (s : String) : String :=
  let cs := s.toList
  let quote := quoteFor cs
  String.ofList (quote :: cs.flatMap (quotedChar quote) ++ [quote])

/-- One byte between quotes: only ASCII characters are shown as they are. -/
def quotedByte (quote : Char) (b : UInt8) : List Char :=
  if b < 0x7f then quotedChar quote (Char.ofNat b.toNat) else '\\' :: 'x' :: hexText 2 b.toNat

/-- Bytes between quotes, behind the letter b. -/
def quotedBytes (bytes : List UInt8) : String :=
  let quote := quoteFor (bytes.map fun b => Char.ofNat b.toNat)
  String.ofList ('b' :: quote :: bytes.flatMap (quotedByte quote) ++ [quote])

end InfraAudit.Text
