import InfraAudit.Yaml.Quoted

/-!
# InfraAudit.Yaml.Plain — scalars without quotes

A plain scalar ends before a comment, before a colon that ends a word and, inside brackets, before the signs of a
list or a mapping.  It goes on over line ends as long as the lines are indented.
-/

namespace InfraAudit.Yaml.Plain

/-- The signs of lists and mappings between brackets. -/
def isFlowSign (c : Char) : Bool :=
  c == ',' || c == '[' || c == ']' || c == '{' || c == '}'

/-- Signs that start something else than a plain scalar. -/
def otherSigns : List Char := ['#', '&', '*', '!', '|', '>', '\'', '"', '%', '@', '\x60']

/-- Whether a plain scalar may start with a text: not with white space or a sign that has a meaning, except for a
hyphen, and outside brackets a colon or a question mark, before other characters. -/
def mayStart (inFlow : Bool) : List Char → Bool
  | [] => false
  | c :: r =>
    if c == '-' then !endsWord r
    else if c == '?' || c == ':' then !inFlow && !endsWord r
    else !isSpacing c && !isFlowSign c && !otherSigns.contains c

/-- Whether a word of a plain scalar ends before the character `c`, which `r` follows. -/
def wordEnds (inFlow : Bool) (c : Char) (r : List Char) : Bool :=
  isSpacing c || (c == ':' && (endsWord r || (inFlow && r.head?.any isFlowSign))) ||
    (inFlow && (c == '?' || isFlowSign c))

/-- A word of a plain scalar. -/
def word (inFlow : Bool) : List Char → List Char
  | [] => []
  | c :: r => if wordEnds inFlow c r then [] else c :: word inFlow r

/-- The line ends and spaces that follow a line end, as text; none if the mark of a document stops the scalar. -/
def emptyLines : (size : Nat) → Cursor → Except Fault (Option (List Char) × Cursor)
  | 0, p => .ok (none, p)
  | size + 1, p => do
    let q := p.skipSpaces
    q.see 1
    match q.lineBreak with
    | ([], _) => return (some [], q)
    | (s, q) =>
      q.seeMark
      if isMarker q.rest then return (none, q)
      let (t, q) ← emptyLines size q
      return (t.map (s ++ ·), q)

/-- The gap between two words. -/
structure Gap where
  text : List Char
  brokenLine : Bool

/-- The white space behind a word; no text if the scalar cannot go on. -/
def gap (p : Cursor) : Except Fault (Gap × Cursor) := do
  let (spaces, q) := p.take (· == ' ')
  q.see 1
  match q.lineBreak with
  | ([], _) => return (⟨spaces, false⟩, q)
  | (lineEnd, q) =>
    q.seeMark
    if isMarker q.rest then return (⟨[], true⟩, q)
    let (more, q) ← emptyLines (q.size + 1) q
    return (⟨(more.map (Quoted.folded lineEnd)).getD [], true⟩, q)

/-- A plain scalar, whether its last gap breaks a line, and the place behind that gap. -/
structure Scanned where
  text : String
  brokenLine : Bool
  place : Cursor

/-- The words from `p` on; `out` holds the text so far, the last character first, `pending` the gap before `p`, and
`size` bounds the number of words.  Lines must reach the column `indent` outside brackets. -/
def scan (inFlow : Bool) (indent : Nat) (out : List Char) (pending : Gap) :
    (size : Nat) → Cursor → Except Fault Scanned
  | 0, p => .ok ⟨String.ofList out.reverse, pending.brokenLine, p⟩
  | size + 1, p => do
    let w := if p.peek? = some '#' then [] else word inFlow p.rest
    let q := p.skip w.length
    q.see (if q.peek? = some ':' then 2 else 1)
    if w.isEmpty then return ⟨String.ofList out.reverse, pending.brokenLine, p⟩
    let out := w.reverse ++ pending.text.reverse ++ out
    let (g, q) ← gap q
    if g.text.isEmpty ∨ q.peek? = some '#' ∨ (!inFlow ∧ q.column < indent) then
      return ⟨String.ofList out.reverse, g.brokenLine, q⟩
    scan inFlow indent out g size q

/-- The plain scalar at `p`. -/
def read (inFlow : Bool) (indent : Nat) (p : Cursor) : Except Fault Scanned :=
  scan inFlow indent [] ⟨[], false⟩ (p.size + 1) p

end InfraAudit.Yaml.Plain
