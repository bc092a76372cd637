import InfraAudit.Yaml.Cursor

/-!
# InfraAudit.Yaml.Quoted — scalars between quotes

Between single quotes a quote is written twice.  Between double quotes a backslash starts an escape.  In both, the
white space around a line end is dropped; a single line end reads as a space.
-/

namespace InfraAudit.Yaml.Quoted

open InfraAudit.Text

/-- The character that a letter stands for after a backslash. -/
def escaped? : Char → Option Char
  | '0' => some '\x00'
  | 'a' => some '\x07'
  | 'b' => some '\x08'
  | 't' => some '\t'
  | '\t' => some '\t'
  | 'n' => some '\n'
  | 'v' => some '\x0b'
  | 'f' => some '\x0c'
  | 'r' => some '\r'
  | 'e' => some '\x1b'
  | ' ' => some ' '
  | '"' => some '"'
  | '\\' => some '\\'
  | '/' => some '/'
  | 'N' => some '\u0085'
  | '_' => some '\u00a0'
  | 'L' => some '\u2028'
  | 'P' => some '\u2029'
  | _ => none

/-- The number of hexadecimal digits after a letter behind a backslash. -/
def codeWidth? : Char → Option Nat
  | 'x' => some 2
  | 'u' => some 4
  | 'U' => some 8
  | _ => none

/-- The character with a code point.  A surrogate has no character of its own and reads as U+FFFD. -/
def charOfCode (n : Nat) : Except Fault Char :=
  if 0x80000000 ≤ n then .error .codePointOverflow
  else if 0x110000 ≤ n then .error .codePoint
  else .ok (if n.isValidChar then Char.ofNat n else '\ufffd')

/-- The empty lines that follow, as text, and the place of the next character that is no white space.  No mark of a
document may stand at the start of a line; `size` bounds the number of lines. -/
def emptyLines : (size : Nat) → Cursor → Except Fault (List Char × Cursor)
  | 0, _ => .error .malformed
  | size + 1, p => do
    p.seeMark
    if isMarker p.rest then throw .malformed
    let q := p.skipWhile isSpaceOrTab
    q.see 1
    match q.lineBreak with
    | ([], _) => return ([], q)
    | (s, q) =>
      let (t, q) ← emptyLines size q
      return (s ++ t, q)

/-- A line end and the lines that follow, as text: a single line end is a space. -/
def folded (lineEnd more : List Char) : List Char :=
  if lineEnd ≠ ['\n'] then lineEnd ++ more else if more.isEmpty then [' '] else more

/-- What stands for the white space at `p`. -/
def spacing (p : Cursor) : Except Fault (List Char × Cursor) :=
  let (blanks, q) := p.take isSpaceOrTab
  match q.peek?, q.lineBreak with
  | none, _ => .error q.stop
  | some _, ([], _) => .ok (blanks, q)
  | some _, (lineEnd, q) => (emptyLines (q.size + 1) q).map fun (more, q) => (folded lineEnd more, q)

/-- What stands for an escape, from behind its backslash. -/
def escape (p : Cursor) : Except Fault (List Char × Cursor) :=
  match p.rest with
  | [] => .error p.stop
  | c :: _ =>
    match escaped? c, codeWidth? c with
    | some x, _ => .ok ([x], p.next)
    | none, some width => do
      let (n, q) ← p.next.hexNumber width
      return ([← charOfCode n], q)
    | none, none =>
      if isBreak c then emptyLines (p.size + 1) p.next else .error .malformed

/-- The rest of a scalar and the place behind its closing quote; `out` holds the text so far, the last character
first, and `size` bounds the number of steps. -/
def scan (quote : Char) (out : List Char) : (size : Nat) → Cursor → Except Fault (List Char × Cursor)
  | 0, _ => .error .malformed
  | size + 1, p =>
    match p.rest with
    | [] => .error p.stop
    | c :: r =>
      if c = quote then
        if quote = '\'' ∧ r.head? = some '\'' then scan quote ('\'' :: out) size (p.skip 2)
        else (p.see 2).map fun _ => (out.reverse, p.next)
      else if isSpacing c then
        match spacing p with
        | .error e => .error e
        | .ok (s, p) => scan quote (s.reverse ++ out) size p
      else if c = '\\' ∧ quote = '"' then
        match escape p.next with
        | .error e => .error e
        | .ok (s, p) => scan quote (s.reverse ++ out) size p
      else scan quote (c :: out) size p.next

/-- The text of a scalar that starts with its quote at `p`, and the place behind it. -/
def read (quote : Char) (p : Cursor) : Except Fault (String × Cursor) :=
  (scan quote [] (p.size + 1) p.next).map fun (s, p) => (String.ofList s, p)

end InfraAudit.Yaml.Quoted
