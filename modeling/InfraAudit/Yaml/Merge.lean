import InfraAudit.Yaml.Fault
import InfraAudit.Yaml.Node

/-!
# InfraAudit.Yaml.Merge — mappings that take over the entries of others

The value of a merge key is a mapping, or a list of mappings.  Their entries stand in front of the own entries, so that
these win; of a list the first mapping wins.

* `Nodes.flatten`: the nodes with the merge keys of a mapping replaced by the entries that they take over.
-/

namespace InfraAudit.Yaml

namespace Nodes

/-- The first merge key among entries: its value, and the other entries. -/
def takeMerge? (ns : Nodes) : List (NodeId × NodeId) → Option (NodeId × List (NodeId × NodeId))
  | [] => none
  | (k, x) :: rest =>
    if ns.tag k = .merge then some (x, rest)
    else (ns.takeMerge? rest).map fun (y, rest) => (y, (k, x) :: rest)

/-- The nodes with the value keys among entries read as texts. -/
def nameKeys (ns : Nodes) (entries : List (NodeId × NodeId)) : Nodes :=
  entries.foldl (fun ns e => if ns.tag e.1 = .value then ns.setTag e.1 .text else ns) ns

/-- The entries of each of several mappings, which `flat` flattens one after the other. -/
def takeOver (flat : Nodes → NodeId → Except Fault Nodes) (ns : Nodes) :
    List NodeId → Except Fault (List (List (NodeId × NodeId)) × Nodes)
  | [] => .ok ([], ns)
  | x :: rest => do
    if (ns.entries? x).isNone then throw .malformed
    let ns ← flat ns x
    let (lists, last) ← takeOver flat ns rest
    return ((ns.entries? x).getD [] :: lists, last)

/-- The nodes with a flattened mapping; `merged` holds the entries taken over so far, and `fuel` bounds the number of
merge keys. -/
def flattenFrom (merged : List (NodeId × NodeId)) : (fuel : Nat) → Nodes → NodeId → Except Fault Nodes
  | 0, _, _ => .error .malformed
  | fuel + 1, ns, id =>
    let entries := (ns.entries? id).getD []
    match ns.takeMerge? entries with
    | none => .ok ((ns.nameKeys entries).setContent id (.mapping (merged ++ entries)))
    | some (source, rest) => do
      let ns := ns.setContent id (.mapping rest)
      let sources ← match (ns.node source).content with
        | .mapping _ => pure [source]
        | .list items => pure items
        | .scalar _ => throw .malformed
      let (lists, ns) ← takeOver (flattenFrom [] fuel) ns sources
      flattenFrom (merged ++ lists.reverse.flatten) fuel ns id

/-- The nodes with a flattened mapping.  A merge key is taken out before its mappings are flattened, so a mapping may
even take over its own entries. -/
def flatten (ns : Nodes) (id : NodeId) : Except Fault Nodes :=
  flattenFrom [] (ns.entryCount + 1) ns id

end Nodes

end InfraAudit.Yaml
