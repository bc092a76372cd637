import InfraAudit.Yaml.Cursor

/-!
# InfraAudit.Yaml.Block — scalars written as indented lines

A literal scalar keeps its line ends.  A folded one reads a single line end between two lines that start with other
characters than white space as a space.  What happens to the line ends behind the last line is said in the header.
-/

namespace InfraAudit.Yaml.Block

open InfraAudit.Text

/-- Which line ends at the end of a block scalar belong to it: the first, all or none. -/
inductive Tail
  | clip
  | keep
  | strip
  deriving DecidableEq

/-- The sign for what happens to the last line ends. -/
def tailOf? : Char → Option Tail
  | '+' => some .keep
  | '-' => some .strip
  | _ => none

/-- The header of a block scalar: its tail, and the depth of its lines if it is given. -/
structure Header where
  tail : Tail
  depth : Option Nat

/-- The tail sign that comes next, if one does. -/
def tailSign (p : Cursor) : Except Fault (Option Tail × Cursor) := do
  p.see 1
  match p.peek?.bind tailOf? with
  | some t => return (some t, p.next)
  | none => return (none, p)

/-- The depth that comes next, if one does; it is not zero. -/
def depthSign (p : Cursor) : Except Fault (Option Nat × Cursor) := do
  p.see 1
  match p.peek? with
  | some c =>
    if c = '0' then throw .malformed
    else if isDigit c then return (some (hexDigitValue c), p.next)
    else return (none, p)
  | none => return (none, p)

/-- The header behind the sign of a block scalar, and the first line: a tail and a depth, in any order. -/
def header (p : Cursor) : Except Fault (Header × Cursor) := do
  let (first, p) ← tailSign p
  let (depth, p) ← depthSign p
  let (last, p) ← if first.isNone ∧ depth.isSome then tailSign p else pure (none, p)
  p.see 1
  if endsItem p.rest then
    return (⟨(first.or last).getD .clip, depth⟩, ← p.nextLine)
  else .error .malformed

/-- The empty lines that follow, as text, the greatest column that their spaces reach, and the place behind them;
`size` bounds the number of lines. -/
def leading : (size : Nat) → (column : Nat) → Cursor → List Char × Nat × Cursor
  | 0, column, p => ([], column, p)
  | size + 1, column, p =>
    let q := p.skipSpaces
    let column := if q.index = p.index then column else max column q.column
    match q.lineBreak with
    | ([], _) => ([], column, q)
    | (s, q) =>
      let (t, column, q) := leading size column q
      (s ++ t, column, q)

/-- The place behind the spaces that indent a line up to a column. -/
def indented (indent : Nat) (p : Cursor) : Cursor :=
  p.skip (min (p.rest.takeWhile (· == ' ')).length (indent - p.column))

/-- The empty lines that follow, as text, and the place where the next line may start; `size` bounds their number. -/
def emptyLines (indent : Nat) : (size : Nat) → Cursor → List Char × Cursor
  | 0, p => ([], p)
  | size + 1, p =>
    let q := indented indent p
    match q.lineBreak with
    | ([], _) => ([], q)
    | (s, q) =>
      let (t, q) := emptyLines indent size q
      (s ++ t, q)

/-- Whether a line of the scalar starts here. -/
def hasLine (indent : Nat) (p : Cursor) : Bool :=
  p.column == indent && !p.rest.isEmpty

/-- Whether a line starts with white space. -/
def startsBlank (s : List Char) : Bool :=
  s.head?.any isSpaceOrTab

/-- The line end between a line and the next one, which `empty` lines stand between. -/
def between (isFolded : Bool) (line next lineEnd empty : List Char) : List Char :=
  if isFolded && lineEnd == ['\n'] && !startsBlank line && !startsBlank next then
    if empty.isEmpty then [' '] else []
  else lineEnd

/-- The text of the lines from `p` on, where a line starts, and the place behind them; `out` holds the text so far,
the last character first, and `size` bounds the number of lines. -/
def lines (isFolded : Bool) (tail : Tail) (indent : Nat) (out : List Char) :
    (size : Nat) → Cursor → List Char × Cursor
  | 0, p => (out.reverse, p)
  | size + 1, p =>
    let (line, q) := p.take (!isBreak ·)
    let (lineEnd, q) := q.lineBreak
    let (empty, q) := emptyLines indent (q.size + 1) q
    let out := line.reverse ++ out
    if hasLine indent q then
      lines isFolded tail indent (empty.reverse ++ (between isFolded line q.rest lineEnd empty).reverse ++ out) size q
    else
      let last := match tail with
        | .clip => lineEnd
        | .keep => lineEnd ++ empty
        | .strip => []
      (out.reverse ++ last, q)

/-- The block scalar whose sign stands at `p`, and the place behind it.  Its lines are deeper than `indent`; if the
header does not say how deep, the first line with text does. -/
def read (isFolded : Bool) (indent : Nat) (p : Cursor) : Except Fault (String × Cursor) := do
  let (h, p) ← header p.next
  let least := max indent 1
  let (empty, depth, p) := match h.depth with
    | some n =>
      let (empty, p) := emptyLines (least + n - 1) (p.size + 1) p
      (empty, least + n - 1, p)
    | none =>
      let (empty, column, p) := leading (p.size + 1) 0 p
      (empty, max least column, p)
  if hasLine depth p then
    let (s, p) := lines isFolded h.tail depth empty.reverse (p.size + 1) p
    p.see 1
    return (String.ofList s, p)
  p.see 1
  return (if h.tail = .keep then String.ofList empty else "", p)

end InfraAudit.Yaml.Block
