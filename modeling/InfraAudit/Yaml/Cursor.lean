import InfraAudit.Text.Word
import InfraAudit.Yaml.Source

/-!
# InfraAudit.Yaml.Cursor — a place in a text

* `Cursor`: the rest of a text, and how many characters and lines are before it.
* `Cursor.see`: the check that as much of the text can be read as is looked at.
* `isBreak`, `isSpacing`: the characters that end lines and words.
* `isMarker`: the marks at the start of a line that separate documents.
-/

namespace InfraAudit.Yaml

open InfraAudit.Text

/-- Characters that end a line. -/
def isBreak (c : Char) : Bool :=
  c == '\n' || c == '\u0085' || c == '\u2028' || c == '\u2029'

/-- A space or a tab. -/
def isSpaceOrTab (c : Char) : Bool :=
  c == ' ' || c == '\t'

/-- Spaces, tabs and the characters that end a line. -/
def isSpacing (c : Char) : Bool :=
  isSpaceOrTab c || isBreak c

/-- Whether a text ends or goes on with spacing. -/
def endsWord (s : List Char) : Bool :=
  s.head?.all isSpacing

/-- Whether a text ends, or goes on with a space or a new line. -/
def endsItem (s : List Char) : Bool :=
  s.head?.all fun c => c == ' ' || isBreak c

/-- Whether a text ends or goes on with a new line. -/
def endsLine (s : List Char) : Bool :=
  s.head?.all isBreak

/-- Whether three characters and the end of a word follow: three times `mark`. -/
def isMark (mark : Char) (s : List Char) : Bool :=
  s.take 3 == [mark, mark, mark] && endsWord (s.drop 3)

/-- Whether a mark follows that starts or ends a document, if the line starts here. -/
def isMarker (s : List Char) : Bool :=
  isMark '-' s || isMark '.' s

/-- The mark of the byte order, which takes no column. -/
def byteOrderMark : Char := '\ufeff'

/-- A place in a text: what is left of it, the characters before it, in all, in lines, and in columns, the number of
characters of the whole text, and the fault that keeps it from being read to its end. -/
structure Cursor where
  rest : List Char
  index : Nat
  line : Nat
  column : Nat
  size : Nat
  beyond : Option Fault

namespace Cursor

/-- The start of a text, behind its byte order mark. -/
def start (s : Source) : Cursor :=
  let (rest, index) := match s.text with
    | c :: r => if c = byteOrderMark then (r, 1) else (c :: r, 0)
    | [] => ([], 0)
  ⟨rest, index, 0, 0, s.text.length, s.beyond⟩

/-- The place behind one more character. -/
def next (p : Cursor) : Cursor :=
  match p.rest with
  | [] => p
  | c :: r =>
    if isBreak c then { p with rest := r, index := p.index + 1, line := p.line + 1, column := 0 }
    else { p with rest := r, index := p.index + 1, column := if c = byteOrderMark then p.column else p.column + 1 }

/-- The place behind `n` more characters. -/
def skip (p : Cursor) : Nat → Cursor
  | 0 => p
  | n + 1 => p.next.skip n

/-- The next character. -/
def peek? (p : Cursor) : Option Char :=
  p.rest.head?

/-- The fault of a text that stops here although it must go on. -/
def stop (p : Cursor) : Fault :=
  p.beyond.getD .malformed

/-- The next `n` characters are looked at, as far as the text has them.  It must be possible to read these, or to see
that the text ends before. -/
def see (p : Cursor) (n : Nat) : Except Fault Unit :=
  match p.beyond with
  | none => .ok ()
  | some e => if (p.rest.drop (n - 1)).isEmpty then .error e else .ok ()

/-- A mark that separates documents is looked for: three characters are looked at, and the one behind a mark. -/
def seeMark (p : Cursor) : Except Fault Unit := do
  p.see 3
  let s := p.rest.take 3
  if s == ['-', '-', '-'] || s == ['.', '.', '.'] then p.see 4

/-- The characters of a class that come next, and the place behind them. -/
def take (p : Cursor) (q : Char → Bool) : List Char × Cursor :=
  let s := p.rest.takeWhile q
  (s, p.skip s.length)

/-- The place behind the characters of a class. -/
def skipWhile (p : Cursor) (q : Char → Bool) : Cursor :=
  (p.take q).2

/-- The place behind spaces. -/
def skipSpaces (p : Cursor) : Cursor :=
  p.skipWhile (· == ' ')

/-- The place behind a comment, if one starts here. -/
def skipComment (p : Cursor) : Cursor :=
  if p.peek? = some '#' then p.skipWhile (!isBreak ·) else p

/-- The line end that comes next, if one does, and the place behind it.  The line and paragraph separators are kept,
other line ends are one character. -/
def lineBreak (p : Cursor) : List Char × Cursor :=
  match p.peek? with
  | some c => if isBreak c then ([if c = '\u0085' then '\n' else c], p.next) else ([], p)
  | none => ([], p)

/-- The next line after spaces and a comment, if nothing else stands on this one. -/
def nextLine (p : Cursor) : Except Fault Cursor := do
  let q := p.skipSpaces.skipComment
  q.see 1
  if endsLine q.rest then
    let q := q.lineBreak.2
    q.see 1
    return q
  else throw .malformed

/-- The number that the next `n` characters write in hexadecimal digits, and the place behind them. -/
def hexNumber (p : Cursor) (n : Nat) : Except Fault (Nat × Cursor) := do
  let digits := (p.rest.take n).takeWhile isHexDigit
  let q := p.skip digits.length
  if digits.length = n then return (hexValue digits, q)
  q.see 1
  throw .malformed

end Cursor

end InfraAudit.Yaml
