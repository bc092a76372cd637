import InfraAudit.Decimal.Binary64
import InfraAudit.Text.Word

/-!
# InfraAudit.Text.Base64 — bytes written as letters

Four characters stand for three bytes.  Characters that stand for nothing are skipped, and what follows the equals
signs that fill up the last group is not read.
-/

namespace InfraAudit.Text.Base64

open InfraAudit.Decimal

/-- The six bits that a character stands for. -/
def value? (c : Char) : Option Nat :=
  if 'A' ≤ c ∧ c ≤ 'Z' then some (c.toNat - 65)
  else if 'a' ≤ c ∧ c ≤ 'z' then some (c.toNat - 71)
  else if isDigit c then some (c.toNat + 4)
  else if c = '+' then some 62
  else if c = '/' then some 63
  else none

/-- The bytes of characters; `out` holds the bytes so far, the last one first, `count` is the number of characters in
the group, `bits` holds those of their bits that belong to the next byte, and `pads` is the number of equals signs. -/
def decodeFrom (out : List UInt8) (count bits pads : Nat) : List Char → Option (List UInt8)
  | [] => if count = 0 then some out.reverse else none
  | c :: r =>
    match value? c with
    | some v =>
      let rest := pow2 (6 - 2 * count)
      if count = 0 then decodeFrom out 1 v 0 r
      else decodeFrom ((bits * pow2 (2 * count) + v / rest).toUInt8 :: out) ((count + 1) % 4) (v % rest) 0 r
    | none =>
      if c = '=' ∧ 2 ≤ count then
        if 4 ≤ count + pads + 1 then some out.reverse else decodeFrom out count bits (pads + 1) r
      else decodeFrom out count bits pads r

/-- The bytes of a text; none if the last group is not full, or a character is not ASCII. -/
def decode (s : String) : Option (List UInt8) :=
  if s.toList.all (·.toNat < 128) then decodeFrom [] 0 0 0 s.toList else none

end InfraAudit.Text.Base64
