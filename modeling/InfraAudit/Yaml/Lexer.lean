import InfraAudit.Yaml.Block
import InfraAudit.Yaml.Plain
import InfraAudit.Yaml.Property

/-!
# InfraAudit.Yaml.Lexer — the tokens of a text, one after the other

A colon can make what stands before it a key.  So the lexer keeps the tokens that may still become keys, and gives a
token out only when it is settled what stands before it.

* `Lexer.peek`: the next token, and the lexer with as much of the text read as that takes.
* `Lexer.drop`: the lexer without its next token.
-/

namespace InfraAudit.Yaml

/-- A place where a key may have started: the number of its token, its place, and whether nothing else than a key can
stand there. -/
structure PossibleKey where
  token : Nat
  required : Bool
  index : Nat
  line : Nat
  column : Nat

/-- A lexer: its place in the text, the number of brackets open, the tokens found and not yet taken, the number of
those taken, the column of the innermost block and those of the blocks around it, whether a key may start next, and
the places where keys may have started, each with the number of brackets open there. -/
structure Lexer where
  place : Cursor
  done : Bool
  depth : Nat
  queue : List Token
  taken : Nat
  indent : Int
  outer : List Int
  keyAllowed : Bool
  keys : List (Nat × PossibleKey)

namespace Lexer

/-- The lexer at the start of a text. -/
def start (s : Source) : Lexer :=
  ⟨.start s, false, 0, [], 0, -1, [], true, []⟩

/-! ### Keys -/

/-- The greatest length of a key on one line. -/
def maxKeyLength : Nat := 1024

/-- Whether a possible key is too far behind the place of the lexer: on another line, or too long. -/
def isStale (l : Lexer) (k : PossibleKey) : Bool :=
  k.line != l.place.line || maxKeyLength < l.place.index - k.index

/-- The lexer without stale keys, none of which may be required. -/
def dropStale (l : Lexer) : Except Fault Lexer :=
  if l.keys.any fun k => l.isStale k.2 && k.2.required then .error .malformed
  else .ok { l with keys := l.keys.filter fun k => !l.isStale k.2 }

/-- The lexer without the possible key between the brackets that are open, which must not be required. -/
def dropKey (l : Lexer) : Except Fault Lexer :=
  if l.keys.any fun k => k.1 == l.depth && k.2.required then .error .malformed
  else .ok { l with keys := l.keys.filter (·.1 != l.depth) }

/-- The lexer with a possible key at its place, if a key may start there. -/
def saveKey (l : Lexer) : Except Fault Lexer :=
  if l.keyAllowed then do
    let l ← l.dropKey
    let required := l.depth == 0 && l.indent == (l.place.column : Int)
    let key : PossibleKey := ⟨l.taken + l.queue.length, required, l.place.index, l.place.line, l.place.column⟩
    return { l with keys := l.keys ++ [(l.depth, key)] }
  else .ok l

/-! ### Indentation -/

/-- The lexer with one more token. -/
def push (l : Lexer) (t : Token) : Lexer :=
  { l with queue := l.queue ++ [t] }

/-- The blocks left open at a column, of those with the given columns, innermost first, and the number of the others. -/
def closed (column : Int) (indent : Int) : List Int → Int × List Int × Nat
  | [] => (indent, [], 0)
  | o :: os =>
    if column < indent then
      let (i, os, n) := closed column o os
      (i, os, n + 1)
    else (indent, o :: os, 0)

/-- The lexer with all blocks closed that are deeper than a column; brackets close none. -/
def unwind (l : Lexer) (column : Int) : Lexer :=
  if l.depth ≠ 0 then l
  else
    let (indent, outer, n) := closed column l.indent l.outer
    { l with indent, outer, queue := l.queue ++ List.replicate n .blockEnd }

/-- The lexer with a block of the given column opened, unless the innermost block is as deep; `start` is put into the
queue at the place `at_`. -/
def openBlock (l : Lexer) (column at_ : Nat) (shape : Shape) : Lexer :=
  if l.indent < column then
    { l with
      indent := column
      outer := l.indent :: l.outer
      queue := l.queue.take at_ ++ .blockStart shape :: l.queue.drop at_ }
  else l

/-- The lexer with a block opened at its place, outside brackets, where that is allowed. -/
def openHere (l : Lexer) (shape : Shape) : Except Fault Lexer :=
  if l.depth ≠ 0 then .ok l
  else if l.keyAllowed then .ok (l.openBlock l.place.column l.queue.length shape)
  else .error .malformed

/-! ### Tokens -/

/-- The lexer behind a sign of `n` characters. -/
def sign (l : Lexer) (n : Nat) (t : Token) : Except Fault Lexer := do
  let p := l.place.skip n
  p.see 1
  return { l with place := p }.push t

/-- The end of the text. -/
def finish (l : Lexer) : Except Fault Lexer := do
  let l ← (l.unwind (-1)).dropKey
  return { l with keyAllowed := false, keys := [], done := true }.push .streamEnd

/-- A directive. -/
def directive (l : Lexer) : Except Fault Lexer := do
  let l ← (l.unwind (-1)).dropKey
  let (d, p) ← Property.directive l.place
  return { l with keyAllowed := false, place := p }.push (.directive d)

/-- The mark at the start or the end of a document. -/
def marker (l : Lexer) (t : Token) : Except Fault Lexer := do
  let l ← (l.unwind (-1)).dropKey
  { l with keyAllowed := false }.sign 3 t

/-- An opening bracket, which may start a key. -/
def flowStart (l : Lexer) (shape : Shape) : Except Fault Lexer := do
  let l ← l.saveKey
  { l with depth := l.depth + 1, keyAllowed := true }.sign 1 (.flowStart shape)

/-- A closing bracket. -/
def flowEnd (l : Lexer) (shape : Shape) : Except Fault Lexer := do
  let l ← l.dropKey
  { l with depth := l.depth - 1, keyAllowed := false }.sign 1 (.flowEnd shape)

/-- A comma. -/
def comma (l : Lexer) : Except Fault Lexer := do
  let l ← l.dropKey
  { l with keyAllowed := true }.sign 1 .comma

/-- The sign of an item of a block list. -/
def dash (l : Lexer) : Except Fault Lexer := do
  let l ← (← l.openHere .list).dropKey
  { l with keyAllowed := true }.sign 1 .dash

/-- The sign of a key. -/
def keySign (l : Lexer) : Except Fault Lexer := do
  let l ← (← l.openHere .mapping).dropKey
  { l with keyAllowed := l.depth == 0 }.sign 1 .key

/-- The sign of a value.  If a key may have started before it, that becomes one, and with it perhaps a mapping. -/
def valueSign (l : Lexer) : Except Fault Lexer :=
  match l.keys.lookup l.depth with
  | some k =>
    let place := k.token - l.taken
    let l := { l with
      keys := l.keys.filter (·.1 != l.depth)
      queue := l.queue.take place ++ Token.key :: l.queue.drop place
      keyAllowed := false }
    let l := if l.depth = 0 then l.openBlock k.column place .mapping else l
    l.sign 1 .value
  | none => do
    let l ← (← l.openHere .mapping).dropKey
    { l with keyAllowed := l.depth == 0 }.sign 1 .value

/-- A token that may start a key and after which none may. -/
def wordLike (l : Lexer) (read : Cursor → Except Fault (Token × Cursor)) : Except Fault Lexer := do
  let l ← l.saveKey
  let (t, p) ← read l.place
  return { l with keyAllowed := false, place := p }.push t

/-- A plain scalar; a key may start behind it on the next line. -/
def plain (l : Lexer) : Except Fault Lexer := do
  let l ← l.saveKey
  let s ← Plain.read (l.depth != 0) (l.indent + 1).toNat l.place
  return { l with keyAllowed := s.brokenLine, place := s.place }.push (.scalar s.text true)

/-- A block scalar. -/
def block (l : Lexer) (isFolded : Bool) : Except Fault Lexer := do
  let l ← { l with keyAllowed := true }.dropKey
  let (s, p) ← Block.read isFolded (l.indent + 1).toNat l.place
  return { l with place := p }.push (.scalar s false)

/-! ### The next token -/

/-- The place of the next token; `broken` says whether lines end before it, and `size` bounds the number of lines. -/
def skipSpace (broken : Bool) : (size : Nat) → Cursor → Bool × Cursor
  | 0, p => (broken, p)
  | size + 1, p =>
    let q := p.skipSpaces.skipComment
    match q.lineBreak with
    | ([], _) => (broken, q)
    | (_, q) => skipSpace true size q

/-- The lexer at its next token; outside brackets a key may start on a new line. -/
def toToken (l : Lexer) : Lexer :=
  let (broken, p) := skipSpace false (l.place.size + 1) l.place
  { l with place := p, keyAllowed := l.keyAllowed || (broken && l.depth == 0) }

/-- The lexer with the token that starts with the character `c`, which `r` follows. -/
def readToken (l : Lexer) (c : Char) (r : List Char) : Except Fault Lexer :=
  let s := c :: r
  let atLineStart := l.place.column = 0
  let inFlow := l.depth ≠ 0
  if c = '%' ∧ atLineStart then l.directive
  else if atLineStart ∧ isMark '-' s then l.marker .documentStart
  else if atLineStart ∧ isMark '.' s then l.marker .documentEnd
  else if c = '[' then l.flowStart .list
  else if c = '{' then l.flowStart .mapping
  else if c = ']' then l.flowEnd .list
  else if c = '}' then l.flowEnd .mapping
  else if c = ',' then l.comma
  else if c = '-' ∧ endsWord r then l.dash
  else if c = '?' ∧ (inFlow ∨ endsWord r) then l.keySign
  else if c = ':' ∧ (inFlow ∨ endsWord r) then l.valueSign
  else if c = '*' then l.wordLike fun p => (Property.name p).map fun (s, p) => (.alias s, p)
  else if c = '&' then l.wordLike fun p => (Property.name p).map fun (s, p) => (.anchor s, p)
  else if c = '!' then l.wordLike fun p => (Property.tag p).map fun ((h, s), p) => (.tag h s, p)
  else if c = '|' ∧ ¬inFlow then l.block false
  else if c = '>' ∧ ¬inFlow then l.block true
  else if c = '\'' ∨ c = '"' then l.wordLike fun p => (Quoted.read c p).map fun (s, p) => (.scalar s false, p)
  else if Plain.mayStart (l.depth != 0) s then l.plain
  else do
    l.place.see 2
    throw .malformed

/-- What comes next is looked at as far as its first character asks for: at the start of a line for the mark of a
document, and for a sign that must end a word at the character behind it. -/
def look (l : Lexer) (c : Char) : Except Fault Unit := do
  if l.place.column = 0 ∧ (c = '-' ∨ c = '.') then l.place.seeMark
  if c = '-' ∨ c = '?' ∨ c = ':' then l.place.see 2

/-- The lexer with more of its text read: up to the end of one more token. -/
def read (l : Lexer) : Except Fault Lexer := do
  let l := l.toToken
  l.place.see 1
  let l ← l.dropStale
  let l := l.unwind l.place.column
  match l.place.rest with
  | [] => l.finish
  | c :: r => do
    l.look c
    l.readToken c r

/-- Whether the next token is still open: there is none, or a key may have started with it. -/
def isOpen (l : Lexer) : Bool :=
  l.queue.isEmpty || l.keys.any (·.2.token == l.taken)

/-- The lexer with its next token settled; `size` bounds the number of tokens that are read for it. -/
def settle : (size : Nat) → Lexer → Except Fault Lexer
  | 0, _ => .error .malformed
  | size + 1, l =>
    if l.done then .ok l
    else do
      let l ← if l.queue.isEmpty then pure l else l.dropStale
      if l.isOpen then settle size (← l.read) else return l

/-- The next token. -/
def peek (l : Lexer) : Except Fault (Token × Lexer) :=
  (settle (l.place.size + 2) l).map fun l => (l.queue.head?.getD .streamEnd, l)

/-- The lexer without its next token. -/
def drop (l : Lexer) : Lexer :=
  { l with queue := l.queue.drop 1, taken := l.taken + 1 }

end Lexer

end InfraAudit.Yaml
