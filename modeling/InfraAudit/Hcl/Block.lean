import InfraAudit.Hcl.Value
import InfraAudit.SourceRange
import InfraAudit.Text.Quoted

/-!
# InfraAudit.Hcl.Block — the tree of a configuration

* `Block`: a declaration with labels, attributes and nested blocks.
* `Block.walk`: a block and its descendants, each before its children, in source order.
* `Site`: a block with the blocks around it; `sites` are those of a forest in the order of the walk.
-/

namespace InfraAudit.Hcl

open InfraAudit.Text

/-- A `name = value` assignment. -/
structure Attribute where
  name : String
  value : Value
  range : SourceRange

/-- A declaration such as `resource "aws_s3_bucket" "logs" { … }`. -/
structure Block where
  kind : String
  labels : List String
  range : SourceRange
  attributes : List Attribute
  children : List Block

/-- The dotted name of a declaration: a resource is named by its labels, any other block by its kind as well. -/
def dottedName (kind : String) (labels : List String) : String :=
  if kind = "resource" ∧ labels ≠ [] then ".".intercalate labels else ".".intercalate (kind :: labels)

/-- A declaration in messages. -/
def shownBlock (kind : String) (labels : List String) (range : SourceRange) : String :=
  "Block(" ++ quoted (dottedName kind labels) ++ ", " ++ range.text ++ ")"

namespace Block

/-- The dotted name of a block. -/
def fullName (b : Block) : String :=
  dottedName b.kind b.labels

/-- The first label, which is the type of a resource. -/
def typeLabel? (b : Block) : Option String :=
  b.labels.head?

/-- Whether the block is a resource of one of the types. -/
def isResource (b : Block) (types : List String) : Bool :=
  b.kind == "resource" && b.typeLabel?.any types.contains

/-- The attribute of the given name. -/
def attribute? (b : Block) (name : String) : Option Attribute :=
  b.attributes.find? (·.name == name)

/-- The children of the given kind. -/
def blocks (b : Block) (kind : String) : List Block :=
  b.children.filter (·.kind == kind)

/-- The first child of the given kind. -/
def block? (b : Block) (kind : String) : Option Block :=
  b.children.find? (·.kind == kind)

/-- The block in messages. -/
def text (b : Block) : String :=
  shownBlock b.kind b.labels b.range

mutual

/-- The block, then its descendants, each before its children. -/
def walk : Block → List Block
  | ⟨kind, labels, range, attributes, children⟩ =>
    ⟨kind, labels, range, attributes, children⟩ :: walkAll children

/-- The walks of the blocks of a forest, one after the other. -/
def walkAll : List Block → List Block
  | [] => []
  | b :: bs => walk b ++ walkAll bs

end

end Block

/-- A block in its place: the blocks around it, innermost first. -/
structure Site where
  block : Block
  ancestors : List Block

namespace Site

/-- The block directly around the site. -/
def parent? (s : Site) : Option Block :=
  s.ancestors.head?

/-- Whether some block around the site has the kind and, if one is given, the first label. -/
def isWithin (s : Site) (kind : String) (label : Option String) : Bool :=
  s.ancestors.any fun a => a.kind == kind && (label.isNone || a.typeLabel? == label)

mutual

/-- The sites of a block and its descendants, in the order of the walk. -/
def ofBlock (ancestors : List Block) : Block → List Site
  | ⟨kind, labels, range, attributes, children⟩ =>
    let b : Block := ⟨kind, labels, range, attributes, children⟩
    ⟨b, ancestors⟩ :: ofBlocks (b :: ancestors) children

/-- The sites of the blocks of a forest with the same blocks around them. -/
def ofBlocks (ancestors : List Block) : List Block → List Site
  | [] => []
  | b :: bs => ofBlock ancestors b ++ ofBlocks ancestors bs

end

end Site

/-- The sites of a forest. -/
def sites (forest : List Block) : List Site :=
  Site.ofBlocks [] forest

end InfraAudit.Hcl
