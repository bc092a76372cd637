import InfraAudit.Yaml.Tag

/-!
# InfraAudit.Yaml.Node — the nodes of a text

An alias stands for a node that is written elsewhere, perhaps around it.  So nodes are numbered, and a node names its
parts by their numbers.
-/

namespace InfraAudit.Yaml

/-- The number of a node. -/
abbrev NodeId := Nat

/-- What a node holds: a text, or the numbers of other nodes. -/
inductive Content
  | scalar (text : String)
  | list (items : List NodeId)
  | mapping (entries : List (NodeId × NodeId))

/-- A node with its kind. -/
structure Node where
  tag : Tag
  content : Content

/-- The nodes of a text by their numbers. -/
abbrev Nodes := Array Node

namespace Nodes

/-- The node with a number. -/
def node (ns : Nodes) (id : NodeId) : Node :=
  ns.getD id ⟨.null, .scalar ""⟩

/-- The kind of a node. -/
def tag (ns : Nodes) (id : NodeId) : Tag :=
  (ns.node id).tag

/-- The nodes with another content of a node. -/
def setContent (ns : Nodes) (id : NodeId) (c : Content) : Nodes :=
  ns.modify id fun n => { n with content := c }

/-- The nodes with another kind of a node. -/
def setTag (ns : Nodes) (id : NodeId) (t : Tag) : Nodes :=
  ns.modify id fun n => { n with tag := t }

/-- The entries of a mapping. -/
def entries? (ns : Nodes) (id : NodeId) : Option (List (NodeId × NodeId)) :=
  match (ns.node id).content with
  | .mapping entries => some entries
  | _ => none

/-- The number of entries in all mappings. -/
def entryCount (ns : Nodes) : Nat :=
  ns.foldl (fun n x => match x.content with
    | .mapping entries => n + entries.length
    | _ => n) 0

end Nodes

end InfraAudit.Yaml
