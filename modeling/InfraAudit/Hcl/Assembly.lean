import InfraAudit.Hcl.Block

/-!
# InfraAudit.Hcl.Assembly — a tree built step by step

Blocks under construction are numbered in order of creation.  A block names its parent when it is created, and
becomes its child when the parent adopts it; so a child has a greater number than its parent, and the numbered
blocks always make up trees.
-/

namespace InfraAudit.Hcl

/-- A block under construction. -/
structure Part where
  kind : String
  labels : List String
  range : SourceRange
  attributes : List Attribute
  children : List Nat
  parent : Option Nat

/-- The blocks under construction, by number. -/
structure Assembly where
  parts : List Part

/-- Why a step of the construction is refused. -/
inductive AssemblyError
  | notItsParent (child parent : String)
  | badRange (e : RangeError)
  | unknownBlock

/-- What is said about a refused step. -/
def AssemblyError.message : AssemblyError → String
  | .notItsParent child parent => s!"{child} was not created with {parent} as its parent"
  | .badRange e => e.message
  | .unknownBlock => "no such block"

/-- The attributes with one set: in place if its name is known, else at the end. -/
def putAttribute (a : Attribute) : List Attribute → List Attribute
  | [] => [a]
  | b :: rest => if b.name == a.name then a :: rest else b :: putAttribute a rest

namespace Assembly

/-- No blocks. -/
def empty : Assembly := ⟨[]⟩

/-- A new block and its number. -/
def create (σ : Assembly) (kind : String) (labels : List String) (range : SourceRange) (parent : Option Nat) :
    Assembly × Nat :=
  (⟨σ.parts ++ [⟨kind, labels, range, [], [], parent⟩]⟩, σ.parts.length)

/-- The assembly with a part changed. -/
def update (σ : Assembly) (n : Nat) (f : Part → Part) : Assembly :=
  ⟨σ.parts.modify n f⟩

/-- The block with the given number as it is now. -/
def block? (σ : Assembly) (n : Nat) : Option Block :=
  match σ.parts[n]? with
  | none => none
  | some p =>
    let children := p.children.filterMap fun c =>
      if _h : n < c ∧ c < σ.parts.length then σ.block? c else none
    some ⟨p.kind, p.labels, p.range, p.attributes, children⟩
termination_by σ.parts.length - n
decreasing_by omega

/-- The blocks around a block, innermost first. -/
def ancestors (σ : Assembly) (n : Nat) : List Block :=
  match (σ.parts[n]?).bind Part.parent with
  | none => []
  | some p => if _h : p < n then (σ.block? p).toList ++ σ.ancestors p else []
termination_by n

/-- A block as it is now, with the blocks around it. -/
def site? (σ : Assembly) (n : Nat) : Option Site :=
  (σ.block? n).map fun b => ⟨b, σ.ancestors n⟩

/-- Makes a block a child of the block named as its parent when it was created. -/
def adopt (σ : Assembly) (parent child : Nat) : Except AssemblyError Assembly :=
  match σ.parts[parent]?, σ.parts[child]? with
  | some p, some c =>
    if c.parent = some parent then .ok (σ.update parent fun p => { p with children := p.children ++ [child] })
    else .error (.notItsParent (shownBlock c.kind c.labels c.range) (shownBlock p.kind p.labels p.range))
  | _, _ => .error .unknownBlock

/-- Sets an attribute of a block. -/
def define (σ : Assembly) (n : Nat) (a : Attribute) : Assembly :=
  σ.update n fun p => { p with attributes := putAttribute a p.attributes }

/-- Sets the last line of a block. -/
def close (σ : Assembly) (n : Nat) (last : Int) : Except AssemblyError Assembly :=
  match σ.parts[n]? with
  | none => .error .unknownBlock
  | some p =>
    match p.range.close? last with
    | .ok r => .ok (σ.update n fun p => { p with range := r })
    | .error e => .error (.badRange e)

end Assembly

end InfraAudit.Hcl
