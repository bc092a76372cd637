import InfraAudit.Yaml.Cursor
import InfraAudit.Yaml.Token

/-!
# InfraAudit.Yaml.Property — names, tags and directives

* `Property.name`: the name of an anchor or an alias.
* `Property.tag`: a tag, as a handle and what follows it.
* `Property.directive`: a line with a percent sign.
-/

namespace InfraAudit.Yaml.Property

open InfraAudit.Decimal InfraAudit.Text

/-- Characters of names. -/
def isNameChar (c : Char) : Bool :=
  isDigit c || isLatinLetter c || c == '-' || c == '_'

/-- Signs that may follow a name at once. -/
def followsName (c : Char) : Bool :=
  isSpacing c || ['?', ':', ',', ']', '}', '%', '@', '\x60'].contains c

/-- The name behind the sign of an anchor or an alias at `p`, and the place behind it. -/
def name (p : Cursor) : Except Fault (String × Cursor) := do
  let (s, q) := p.next.take isNameChar
  q.see 1
  if s.isEmpty ∨ !q.rest.head?.all followsName then throw .malformed
  return (String.ofList s, q)

/-! ### Tags -/

/-- Characters of tags other than the percent sign. -/
def isTagChar (c : Char) : Bool :=
  isNameChar c ||
    [';', '/', '?', ':', '@', '&', '=', '+', '$', ',', '.', '!', '~', '*', '\'', '(', ')', '[', ']'].contains c

/-- The bytes written with percent signs that come next, and the place behind them; `size` bounds their number. -/
def bytes : (size : Nat) → Cursor → Except Fault (List UInt8 × Cursor)
  | 0, p => .ok ([], p)
  | size + 1, p => do
    p.see 1
    if p.peek? = some '%' then
      let (b, q) ← p.next.hexNumber 2
      let (bs, q) ← bytes size q
      return (b.toUInt8 :: bs, q)
    return ([], p)

/-- The text of bytes that must be UTF-8. -/
def textOf (bs : List UInt8) : Except Fault (List Char) :=
  match Utf8.decode ⟨bs.toArray⟩ with
  | .ok s => .ok s
  | .error _ => .error .malformed

/-- The characters of a tag that come next, and the place behind them; `size` bounds the number of their parts. -/
def tagChars : (size : Nat) → Cursor → Except Fault (List Char × Cursor)
  | 0, p => .ok ([], p)
  | size + 1, p => do
    let (s, q) := p.take isTagChar
    q.see 1
    if q.peek? = some '%' then
      let (bs, q) ← bytes (q.size + 1) q
      let t ← textOf bs
      let (u, q) ← tagChars size q
      return (s ++ t ++ u, q)
    return (s, q)

/-- The characters of a tag, of which there is one at least, and the place behind them. -/
def tagText (p : Cursor) : Except Fault (String × Cursor) := do
  let (s, q) ← tagChars (p.size + 1) p
  if q.index = p.index then throw .malformed
  return (String.ofList s, q)

/-- The handle of a tag, between exclamation marks, and the place behind it; before a space one mark is enough. -/
def handle (p : Cursor) : Except Fault (String × Cursor) := do
  p.see 1
  if p.peek? ≠ some '!' then throw .malformed
  p.see 2
  if p.next.peek? = some ' ' then return ("!", p.next)
  let (s, q) := p.next.take isNameChar
  q.see 1
  if q.peek? ≠ some '!' then throw .malformed
  q.see 2
  return (String.ofList ('!' :: s ++ ['!']), q.next)

/-- Whether another exclamation mark stands in the word behind the one at `p`. -/
def hasHandle (p : Cursor) : Except Fault Bool := do
  let q := p.next.skipWhile fun c => c != ' ' && c != '!' && !isBreak c
  q.see 1
  return q.peek? == some '!'

/-- A tag that starts at `p`: its handle and what follows, and the place behind it.  A tag between angle brackets, and
a lone exclamation mark, have no handle. -/
def tag (p : Cursor) : Except Fault ((Option String × String) × Cursor) := do
  p.see 2
  let (t, q) ←
    if p.next.peek? = some '<' then do
      let (s, q) ← tagText (p.skip 2)
      if q.peek? ≠ some '>' then throw .malformed
      pure ((none, s), q.next)
    else if endsWord p.next.rest then pure ((none, "!"), p.next)
    else do
      let (h, q) ← if ← hasHandle p then handle p else pure ("!", p.next)
      let (s, q) ← tagText q
      pure ((some h, s), q)
  q.see 1
  if endsItem q.rest then return (t, q) else throw .malformed

/-! ### Directives -/

/-- A number of a version, and the place behind it. -/
def number (p : Cursor) : Except Fault (Nat × Cursor) := do
  let (s, q) := p.take isDigit
  q.see 1
  if s.isEmpty then throw .malformed
  if digitLimit < s.length then throw (.oversized ⟨s.length⟩)
  return (decimalValue s, q)

/-- A version: two numbers with a point between them. -/
def version (p : Cursor) : Except Fault (Directive × Cursor) := do
  let (major, p) ← number p.skipSpaces
  if p.peek? = some '.' then
    let (_, p) ← number p.next
    if endsItem p.rest then return (.version major, p) else .error .malformed
  else .error .malformed

/-- A handle and what it stands for. -/
def meaning (p : Cursor) : Except Fault (Directive × Cursor) := do
  let (h, p) ← handle p.skipSpaces
  if p.peek? = some ' ' then
    let (s, p) ← tagText p.skipSpaces
    if endsItem p.rest then return (.handle h s, p) else .error .malformed
  else .error .malformed

/-- The directive whose percent sign stands at `p`, and the next line. -/
def directive (p : Cursor) : Except Fault (Directive × Cursor) := do
  let (s, p) := p.next.take isNameChar
  p.see 1
  if s.isEmpty ∨ !endsItem p.rest then throw .malformed
  let (d, p) ← match String.ofList s with
    | "YAML" => version p
    | "TAG" => meaning p
    | _ => pure (.other, p.skipWhile (!isBreak ·))
  return (d, ← p.nextLine)

end InfraAudit.Yaml.Property
