import InfraAudit.Text.Quoted

/-!
# InfraAudit.Text.Utf8 — bytes that must be UTF-8

* `Utf8.decodeBlock`: the characters of a block of bytes, of which the last one may be cut.
* `Utf8.decode`: the characters of bytes that are complete, or the first fault in them.
* `Utf8Fault.message`: what is said about a fault.
-/

namespace InfraAudit.Text

/-- Why bytes are no UTF-8. -/
inductive Utf8Cause
  | badStart
  | badContinuation
  | unexpectedEnd
  deriving DecidableEq

/-- A fault in bytes: the first byte of the character, its place, and the number of bytes that do not fit. -/
structure Utf8Fault where
  byte : Nat
  place : Nat
  size : Nat
  cause : Utf8Cause
  deriving DecidableEq

/-- The words for a cause. -/
def Utf8Cause.message : Utf8Cause → String
  | .badStart => "invalid start byte"
  | .badContinuation => "invalid continuation byte"
  | .unexpectedEnd => "unexpected end of data"

/-- What is said about a fault. -/
def Utf8Fault.message (e : Utf8Fault) : String :=
  let what :=
    if e.size = 1 then "byte 0x" ++ String.ofList (hexText 2 e.byte) ++ s!" in position {e.place}"
    else s!"bytes in position {e.place}-{e.place + e.size - 1}"
  s!"'utf-8' codec can't decode {what}: {e.cause.message}"

namespace Utf8

/-- A character of which some bytes are read: its first byte and place, the number of bytes read and missing, the
bounds of the next byte, and the bits so far. -/
structure Partial where
  byte : Nat
  place : Nat
  read : Nat
  missing : Nat
  low : Nat
  high : Nat
  bits : Nat

/-- The fault of a character whose bytes do not go on. -/
def Partial.fault (p : Partial) (cause : Utf8Cause) : Utf8Fault :=
  ⟨p.byte, p.place, p.read, cause⟩

/-- A character that starts with the byte `b` and has more bytes. -/
def start? (b place : Nat) : Option Partial :=
  let more (missing low high bits : Nat) : Option Partial := some ⟨b, place, 1, missing, low, high, bits⟩
  if b < 0xc2 then none
  else if b < 0xe0 then more 1 0x80 0xbf (b - 0xc0)
  else if b < 0xf0 then more 2 (if b = 0xe0 then 0xa0 else 0x80) (if b = 0xed then 0x9f else 0xbf) (b - 0xe0)
  else if b < 0xf5 then more 3 (if b = 0xf0 then 0x90 else 0x80) (if b = 0xf4 then 0x8f else 0xbf) (b - 0xf0)
  else none

/-- A character with one more byte. -/
def Partial.add (p : Partial) (b : Nat) : Partial :=
  { p with read := p.read + 1, missing := p.missing - 1, low := 0x80, high := 0xbf, bits := p.bits * 64 + (b - 0x80) }

/-- The characters of bytes, and a character that they cut; `place` is that of the next byte, `begun` a character whose
first bytes are read, and `out` holds the characters so far, the last one first. -/
def decodeFrom (out : List Char) (begun : Option Partial) (place : Nat) :
    List UInt8 → Except Utf8Fault (List Char × Option Partial)
  | [] => .ok (out.reverse, begun)
  | b :: rest =>
    let n := b.toNat
    match begun with
    | none =>
      if n < 0x80 then decodeFrom (Char.ofNat n :: out) none (place + 1) rest
      else match start? n place with
        | none => .error ⟨n, place, 1, .badStart⟩
        | some p => decodeFrom out (some p) (place + 1) rest
    | some p =>
      if n < p.low ∨ p.high < n then .error (p.fault .badContinuation)
      else
        let q := p.add n
        if q.missing = 0 then decodeFrom (Char.ofNat q.bits :: out) none (place + 1) rest
        else decodeFrom out (some q) (place + 1) rest

/-- The characters of a block, and a character that it cuts.  The bytes of a character that the block before has cut
are counted as the first ones of this block. -/
def decodeBlock (begun : Option Partial) (block : List UInt8) : Except Utf8Fault (List Char × Option Partial) :=
  decodeFrom [] (begun.map ({ · with place := 0 })) ((begun.map (·.read)).getD 0) block

/-- Bytes that end may cut no character. -/
def checkEnd : Option Partial → Except Utf8Fault Unit
  | none => .ok ()
  | some p => .error (p.fault .unexpectedEnd)

/-- The characters of bytes. -/
def decode (bytes : ByteArray) : Except Utf8Fault (List Char) := do
  let (s, begun) ← decodeBlock none bytes.toList
  checkEnd begun
  return s

end Utf8

end InfraAudit.Text
