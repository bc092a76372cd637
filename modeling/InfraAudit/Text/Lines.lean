/-!
# InfraAudit.Text.Lines — reading text

* `decode`: bytes as UTF-8, or as one character per byte where they are no UTF-8.
* `unifyLineEnds`: `\r\n` and a lone `\r` read as `\n`.
* `splitLines`: the lines of a text, every Unicode line separator ending one.
-/

namespace InfraAudit.Text

/-- Every `\r\n` and every other `\r` becomes `\n`. -/
def unifyLineEnds : List Char → List Char
  | [] => []
  | '\r' :: '\n' :: r => '\n' :: unifyLineEnds r
  | c :: r => (if c == '\r' then '\n' else c) :: unifyLineEnds r

/-- The characters that end a line, in a text whose line ends are unified. -/
def isLineBreak (c : Char) : Bool :=
  c == '\n' || c == '\r' || c == '\x0b' || c == '\x0c' || c == '\x1c' || c == '\x1d' || c == '\x1e' ||
    c == '\u0085' || c == '\u2028' || c == '\u2029'

/-- The lines of a text; a break at the end starts no further line. -/
def splitLines (s : List Char) : List (List Char) :=
  let lines := s.splitOnP isLineBreak
  if lines.getLast? = some [] then lines.dropLast else lines

/-- The characters of a file: UTF-8 where that is valid, else a character per byte. -/
def decode (bytes : ByteArray) : List Char :=
  match String.fromUTF8? bytes with
  | some s => s.toList
  | none => bytes.toList.map fun b => Char.ofNat b.toNat

/-- The text of a file with its line ends unified. -/
def readText (bytes : ByteArray) : String :=
  String.ofList (unifyLineEnds (decode bytes))

end InfraAudit.Text
