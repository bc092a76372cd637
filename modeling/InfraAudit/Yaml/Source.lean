import InfraAudit.Text.Portion
import InfraAudit.Yaml.Fault

/-!
# InfraAudit.Yaml.Source — a text as far as it can be read

A file is read only as far as its tokens ask for, so a fault far behind one in the first lines is never met.

* `Source`: the characters that can be read, and the fault behind them.
* `Source.ofFile`: the text of a file.
-/

namespace InfraAudit.Yaml

open InfraAudit.Text

/-- Characters that a text may hold. -/
def isAllowed (c : Char) : Bool :=
  let n := c.toNat
  n == 9 || n == 10 || (0x20 ≤ n && n ≤ 0x7e) || n == 0x85 || (0xa0 ≤ n && n ≤ 0xfffd) || 0x10000 ≤ n

/-- A text as far as it can be read, and why it cannot be read on; a text that ends has no such fault. -/
structure Source where
  text : List Char
  beyond : Option Fault

namespace Source

/-- The text of parts that are read one after the other, up to one with a character that no text may hold; `stop` is
the fault behind the last part. -/
def ofParts (stop : Option Fault) : List (List Char) → Source
  | [] => ⟨[], stop⟩
  | s :: rest =>
    if s.all isAllowed then
      let more := ofParts stop rest
      ⟨s ++ more.text, more.beyond⟩
    else ⟨[], some .malformed⟩

/-- The text of a file.  Its first two portions are read together, each other one by itself. -/
def ofFile (bytes : ByteArray) : Source :=
  match portions bytes with
  | ([_], some e) => ⟨[], some (.undecodable e)⟩
  | (s :: t :: rest, e) => ofParts (e.map .undecodable) ((s ++ t) :: rest)
  | (parts, e) => ofParts (e.map .undecodable) parts

end Source

end InfraAudit.Yaml
