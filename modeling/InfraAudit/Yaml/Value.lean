import InfraAudit.Text.Base64
import InfraAudit.Yaml.Document
import InfraAudit.Yaml.Merge
import InfraAudit.Yaml.Number
import InfraAudit.Yaml.Scalar

/-!
# InfraAudit.Yaml.Value — what a text denotes

The nodes of a document are valued level by level: first the root, then its parts, then theirs.  So a fault in an
outer part comes before one in an inner part, and a node may be a part of itself.

* `Value`: a value up to a depth.
* `Value.read`: the value of a text, or the first fault in it.
-/

namespace InfraAudit.Yaml

open InfraAudit.Text

/-- A value, looked at to some depth: what is deeper, and a set, stays closed. -/
inductive Value
  | scalar (s : Scalar)
  | list (items : List Value)
  | map (entries : List (Scalar × Value))
  | closed
  deriving Inhabited

/-- A node that has its value: its parts are named by their numbers.  A list of pairs has only a length. -/
inductive Valued
  | scalar (s : Scalar)
  | list (items : List NodeId)
  | map (entries : List (Scalar × NodeId))
  | set
  | pairs (count : Nat)

/-! ### Scalars -/

/-- The words for truth and falsehood, in lower case. -/
def boolOf? : String → Option Bool
  | "yes" | "true" | "on" => some true
  | "no" | "false" | "off" => some false
  | _ => none

namespace Nodes

/-- The text of a scalar; a mapping with a value key counts as the text of its value.  Such keys may stand one inside
the other, as many as there are nodes. -/
def textFrom (ns : Nodes) : (fuel : Nat) → NodeId → Except Fault String
  | 0, _ => .error .malformed
  | fuel + 1, id =>
    match (ns.node id).content with
    | .scalar s => .ok s
    | .list _ => .error .malformed
    | .mapping entries =>
      match entries.find? fun e => ns.tag e.1 = .value with
      | some e => ns.textFrom fuel e.2
      | none => .error .malformed

/-- The text of a scalar. -/
def text (ns : Nodes) (id : NodeId) : Except Fault String :=
  ns.textFrom (ns.size + 1) id

/-- Whether a node is a scalar of its own. -/
def isScalar (ns : Nodes) (id : NodeId) : Bool :=
  match (ns.node id).content with
  | .scalar _ => true
  | _ => false

/-- The scalar that a node of a scalar kind denotes; other kinds have none. -/
def scalar? (ns : Nodes) (id : NodeId) : Except Fault (Option Scalar) :=
  match ns.tag id with
  | .null => (ns.text id).map fun _ => some .null
  | .bool => do
    let word := lower (← ns.text id)
    match boolOf? word with
    | some b => return some (.bool b)
    | none => throw (.badBool word)
  | .integer => do return some (.integer (← Number.integer (← ns.text id)))
  | .real => do
    match ← Number.real (← ns.text id) with
    | .number x => return some (.real x)
    | .named => return some (.notANumber none)
    | .nameless => return some (.notANumber (some id))
  | .bytes => do
    match Base64.decode (← ns.text id) with
    | some bs => return some (.bytes bs)
    | none => throw .malformed
  | .moment => do
    let s ← ns.text id
    if ns.isScalar id then return some (.moment (← Moment.ofText s)) else throw .momentOfMapping
  | .text => do return some (.text (← ns.text id))
  | .list | .map | .set | .orderedMap | .pairs => .ok none
  | .merge | .value | .unknown => .error .malformed

end Nodes

/-! ### Level by level -/

/-- The nodes of a document, the values so far, and the collections that wait for theirs, the first one first. -/
structure Valuation where
  nodes : Nodes
  values : Array (Option Valued)
  seen : List NodeId
  waiting : List NodeId

namespace Valuation

/-- The valuation with a value. -/
def setValue (v : Valuation) (id : NodeId) (x : Valued) : Valuation :=
  { v with values := v.values.setIfInBounds id (some x) }

/-- The valuation with a part reached: a scalar has its value at once, a collection waits. -/
def reach (v : Valuation) (id : NodeId) : Except Fault Valuation :=
  if v.seen.contains id then .ok v
  else do
    let v := { v with seen := id :: v.seen }
    match ← v.nodes.scalar? id with
    | some s => return v.setValue id (.scalar s)
    | none => return { v with waiting := v.waiting ++ [id] }

/-- The scalar that a reached node denotes; collections are no keys. -/
def key (v : Valuation) (id : NodeId) : Except Fault Scalar :=
  match v.values.getD id none with
  | some (.scalar s) => .ok s
  | _ => .error .malformed

/-- The entries with one more; a known key stays, with the new value. -/
def putEntry (k : Scalar) (x : NodeId) : List (Scalar × NodeId) → List (Scalar × NodeId)
  | [] => [(k, x)]
  | (l, y) :: rest => if l.same k then (l, x) :: rest else (l, y) :: putEntry k x rest

/-- The valuation with the entries of a mapping reached, and these entries by their keys. -/
def reachEntries (v : Valuation) (out : List (Scalar × NodeId)) :
    List (NodeId × NodeId) → Except Fault (List (Scalar × NodeId) × Valuation)
  | [] => .ok (out, v)
  | (k, x) :: rest => do
    let v ← v.reach k
    let s ← v.key k
    let v ← v.reach x
    v.reachEntries (putEntry s x out) rest

/-- The valuation with the pairs of a list reached; each of them is a mapping with one entry. -/
def reachPairs (v : Valuation) : List NodeId → Except Fault Valuation
  | [] => .ok v
  | id :: rest => do
    match v.nodes.entries? id with
    | some [(k, x)] => (← (← v.reach k).reach x).reachPairs rest
    | _ => throw .malformed

/-- The items of a list. -/
def items (v : Valuation) (id : NodeId) : Except Fault (List NodeId) :=
  match (v.nodes.node id).content with
  | .list items => .ok items
  | _ => .error .malformed

/-- The valuation with a mapping flattened and its entries reached. -/
def openMapping (v : Valuation) (id : NodeId) : Except Fault (List (Scalar × NodeId) × Valuation) := do
  if (v.nodes.entries? id).isNone then throw .malformed
  let ns ← v.nodes.flatten id
  { v with nodes := ns }.reachEntries [] ((ns.entries? id).getD [])

/-- The valuation with the value of a collection that waited. -/
def complete (v : Valuation) (id : NodeId) : Except Fault Valuation :=
  match v.nodes.tag id with
  | .list => do
    let xs ← v.items id
    return (← xs.foldlM reach v).setValue id (.list xs)
  | .map => do
    let (entries, v) ← v.openMapping id
    return v.setValue id (.map entries)
  | .set => do
    let (_, v) ← v.openMapping id
    return v.setValue id .set
  | _ => do
    let xs ← v.items id
    return (← v.reachPairs xs).setValue id (.pairs xs.length)

/-- The values of all nodes that can be reached; `fuel` bounds the number of collections. -/
def run : (fuel : Nat) → Valuation → Except Fault Valuation
  | 0, _ => .error .malformed
  | fuel + 1, v =>
    match v.waiting with
    | [] => .ok v
    | id :: rest => do run fuel (← { v with waiting := rest }.complete id)

/-- The value of a node up to a depth. -/
def value (v : Valuation) : (depth : Nat) → NodeId → Value
  | depth, id =>
    match depth, v.values.getD id none with
    | _, some (.scalar s) => .scalar s
    | depth + 1, some (.list xs) => .list (xs.map (v.value depth))
    | depth + 1, some (.map es) => .map (es.map fun (k, x) => (k, v.value depth x))
    | _ + 1, some (.pairs n) => .list (List.replicate n .closed)
    | _, _ => .closed

end Valuation

/-! ### Whole texts -/

namespace Value

/-- The value of a document up to a depth. -/
def ofDocument (depth : Nat) (d : Document) : Except Fault Value :=
  match d.root with
  | none => .ok (.scalar .null)
  | some root => do
    let v : Valuation := ⟨d.nodes, Array.replicate d.nodes.size none, [], []⟩
    let v ← (← v.reach root).run (d.nodes.size + 1)
    return v.value depth root

/-- The value of a text up to a depth. -/
def read (depth : Nat) (s : Source) : Except Fault Value :=
  (Document.read s).bind (ofDocument depth)

end Value

end InfraAudit.Yaml
