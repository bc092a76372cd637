import InfraAudit.Decimal.Binary64
import InfraAudit.Text.Lines
import InfraAudit.Text.Utf8

/-!
# InfraAudit.Text.Portion — text files read in portions

A text is given out in portions of `portionSize` characters.  Its bytes are read in blocks, as many as a portion asks
for, so a fault in the bytes behind a portion does not keep it from being given out.

* `Reading`: a text file of which a part is read.
* `portions`: the portions of a file, and the fault that ends them, if one does.
-/

namespace InfraAudit.Text

open InfraAudit.Decimal

/-- The number of characters in a portion; the last one may have less. -/
def portionSize : Nat := 4096

/-- The least number of bytes that are read at one time. -/
def leastBlockSize : Nat := 8192

/-- A text file of which a part is read: the bytes that are left, a character that the last block cuts, whether a
carriage return waits for what follows it, the characters that are not given out, and the numbers of bytes and of
characters of the last block. -/
structure Reading where
  bytes : List UInt8
  begun : Option Utf8.Partial
  carriage : Bool
  ready : List Char
  lastBytes : Nat
  lastChars : Nat

namespace Reading

/-- The start of a file. -/
def start (bytes : ByteArray) : Reading :=
  ⟨bytes.toList, none, false, [], 0, 0⟩

/-- The number of bytes to read for a number of characters: enough if these are as long as those of the last block,
in binary64 arithmetic, but never less than the least number. -/
def blockSize (r : Reading) (wanted : Nat) : Nat :=
  if r.lastChars = 0 then leastBlockSize
  else
    let guess := (Binary64.ofRatio false r.lastBytes r.lastChars).mul (Binary64.ofNat wanted)
    max leastBlockSize (((guess.bind Binary64.units?).getD 0).toNat / Binary64.unitsInOne)

/-- The reading with the text of one more block, whose line ends are unified.  A carriage return at its end waits. -/
def append (r : Reading) (s : List Char) : Reading :=
  if s.isEmpty then { r with lastChars := 0 }
  else
    let s := if r.carriage then '\r' :: s else s
    let carriage := s.getLast? == some '\r'
    let s := unifyLineEnds (if carriage then s.dropLast else s)
    { r with carriage, ready := r.ready ++ s, lastChars := s.length }

/-- The reading with one more block, of which `wanted` characters are wanted. -/
def readBlock (r : Reading) (wanted : Nat) : Except Utf8Fault Reading := do
  let (block, rest) := r.bytes.splitAt (r.blockSize wanted)
  let (s, begun) ← Utf8.decodeBlock r.begun block
  return { r with bytes := rest, begun, lastBytes := block.length }.append s

/-- The reading at the end of its file.  No character may be cut, and a carriage return that waits is a line end. -/
def finish (r : Reading) : Except Utf8Fault Reading := do
  Utf8.checkEnd (r.begun.map ({ · with place := 0 }))
  return { r with carriage := false, ready := if r.carriage then r.ready ++ ['\n'] else r.ready }

/-- The reading with `n` characters ready, or with all that are left; `fuel` bounds the number of blocks. -/
def fill (n : Nat) : (fuel : Nat) → Reading → Except Utf8Fault Reading
  | 0, r => .ok r
  | fuel + 1, r =>
    if n ≤ r.ready.length then .ok r
    else if r.bytes.isEmpty then r.finish
    else do fill n fuel (← r.readBlock (n - r.ready.length))

/-- The next portion, which is empty at the end of the file, and the reading behind it. -/
def portion (r : Reading) : Except Utf8Fault (List Char × Reading) := do
  let r ← r.fill portionSize (r.bytes.length + 1)
  return (r.ready.take portionSize, { r with ready := r.ready.drop portionSize })

/-- The portions that are left, and the fault that ends them; `fuel` bounds their number. -/
def portions : (fuel : Nat) → Reading → List (List Char) × Option Utf8Fault
  | 0, _ => ([], none)
  | fuel + 1, r =>
    match r.portion with
    | .error e => ([], some e)
    | .ok ([], _) => ([], none)
    | .ok (s, r) =>
      let (more, e) := portions fuel r
      (s :: more, e)

end Reading

/-- The portions of a file, and the fault that ends them, if one does. -/
def portions (bytes : ByteArray) : List (List Char) × Option Utf8Fault :=
  (Reading.start bytes).portions (bytes.size + 1)

end InfraAudit.Text
