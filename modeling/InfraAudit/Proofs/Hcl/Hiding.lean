import InfraAudit.Proofs.Hcl.Traversal
import Mathlib.Data.List.Forall2

/-!
# InfraAudit.Proofs.Hcl.Hiding — trees in which a value is not known any more

* `Block.Hides`, `Hides`: one attribute of a block or of a forest, at any depth, loses its value.
* `Attribute.Vaguer`, `Block.Vaguer`, `Site.Vaguer`: the same as before, or with values that are not known any
  more, as far as a check at this place can see.
* `sites_vaguer`: the places of a forest and those of what it hides to are vaguer one by one.
-/

namespace InfraAudit.Hcl

/-- The attribute with a value that is not known. -/
def Attribute.hide (a : Attribute) : Attribute :=
  { a with value := .unresolved }

/-- One attribute of the block, or of a block inside it, loses its value. -/
inductive Block.Hides : Block → Block → Prop
  | here {kind : String} {labels : List String} {range : SourceRange} {before after : List Attribute}
      {a : Attribute} {children : List Block} :
      Hides ⟨kind, labels, range, before ++ a :: after, children⟩
        ⟨kind, labels, range, before ++ a.hide :: after, children⟩
  | inside {kind : String} {labels : List String} {range : SourceRange} {attributes : List Attribute}
      {before after : List Block} {b b' : Block} (h : Hides b b') :
      Hides ⟨kind, labels, range, attributes, before ++ b :: after⟩
        ⟨kind, labels, range, attributes, before ++ b' :: after⟩

/-- One attribute of a block of the forest, at any depth, loses its value. -/
inductive Hides : List Block → List Block → Prop
  | intro {before after : List Block} {b b' : Block} (h : b.Hides b') :
      Hides (before ++ b :: after) (before ++ b' :: after)

/-! ### What is seen at one place -/

/-- The attribute itself, or without its value. -/
def Attribute.Vaguer (a a' : Attribute) : Prop :=
  a' = a ∨ a' = a.hide

/-- A block with the same header, whose attributes are the same or without their values. -/
structure Block.Vaguer (b b' : Block) : Prop where
  kind : b'.kind = b.kind
  labels : b'.labels = b.labels
  range : b'.range = b.range
  attributes : List.Forall₂ Attribute.Vaguer b.attributes b'.attributes

/-- A place with a vaguer block, whose children are vaguer one by one, inside blocks of the same kinds. -/
structure Site.Vaguer (s s' : Site) : Prop where
  block : s.block.Vaguer s'.block
  children : List.Forall₂ Block.Vaguer s.block.children s'.block.children
  kinds : s'.ancestors.map Block.kind = s.ancestors.map Block.kind

section Lookup

variable {b b' : Block} {name : String}

theorem Attribute.Vaguer.name_eq {a a' : Attribute} (h : a.Vaguer a') : a'.name = a.name := by
  rcases h with rfl | rfl <;> rfl

theorem forall₂_vaguer_refl (as : List Attribute) : List.Forall₂ Attribute.Vaguer as as :=
  List.forall₂_same.2 fun _ _ => .inl rfl

theorem Block.Vaguer.refl (b : Block) : b.Vaguer b :=
  ⟨rfl, rfl, rfl, forall₂_vaguer_refl _⟩

theorem forall₂_block_refl (bs : List Block) : List.Forall₂ Block.Vaguer bs bs :=
  List.forall₂_same.2 fun b _ => .refl b

/-- What is found first in two lists that are related one by one. -/
theorem find?_of_forall₂ {α : Type} {R : α → α → Prop} {p : α → Bool} {l l' : List α} (h : List.Forall₂ R l l')
    (hp : ∀ a a', R a a' → p a' = p a) :
    (l.find? p = none ∧ l'.find? p = none) ∨ ∃ a a', l.find? p = some a ∧ l'.find? p = some a' ∧ R a a' := by
  induction h with
  | nil => exact .inl ⟨rfl, rfl⟩
  | @cons a a' l l' ha h ih =>
    rw [List.find?_cons, List.find?_cons, hp a a' ha]
    cases p a with
    | true => exact .inr ⟨a, a', rfl, rfl, ha⟩
    | false => exact ih

/-- An attribute that is looked up is there or not as before, and may have lost its value. -/
theorem Block.Vaguer.attribute? (h : b.Vaguer b') (name : String) :
    (b.attribute? name = none ∧ b'.attribute? name = none) ∨
      ∃ a, b.attribute? name = some a ∧ (b'.attribute? name = some a ∨ b'.attribute? name = some a.hide) := by
  refine (find?_of_forall₂ h.attributes fun a a' ha => by rw [ha.name_eq]).imp_right ?_
  rintro ⟨a, a', ha, ha', rfl | rfl⟩
  · exact ⟨_, ha, .inl ha'⟩
  · exact ⟨_, ha, .inr ha'⟩

theorem Block.Vaguer.fullName (h : b.Vaguer b') : b'.fullName = b.fullName := by
  rw [Block.fullName, Block.fullName, h.kind, h.labels]

theorem Block.Vaguer.typeLabel? (h : b.Vaguer b') : b'.typeLabel? = b.typeLabel? := by
  rw [Block.typeLabel?, Block.typeLabel?, h.labels]

theorem Block.Vaguer.isResource (h : b.Vaguer b') (types : List String) :
    b'.isResource types = b.isResource types := by
  rw [Block.isResource, Block.isResource, h.kind, h.typeLabel?]

theorem block?_of_forall₂ (h : List.Forall₂ Block.Vaguer b.children b'.children) (kind : String) :
    (b.block? kind = none ∧ b'.block? kind = none) ∨
      ∃ c c', b.block? kind = some c ∧ b'.block? kind = some c' ∧ c.Vaguer c' :=
  find?_of_forall₂ h fun c c' hc => by rw [hc.kind]

theorem isSome_block?_of_forall₂ (h : List.Forall₂ Block.Vaguer b.children b'.children) (kind : String) :
    (b'.block? kind).isSome = (b.block? kind).isSome := by
  obtain ⟨h1, h2⟩ | ⟨c, c', h1, h2, -⟩ := block?_of_forall₂ h kind <;> simp [h1, h2]

theorem blocks_of_forall₂ (h : List.Forall₂ Block.Vaguer b.children b'.children) (kind : String) :
    List.Forall₂ Block.Vaguer (b.blocks kind) (b'.blocks kind) :=
  List.rel_filter (fun c c' hc => by simp [hc.kind]) h

end Lookup

/-! ### All places of a forest -/

section Sites

mutual

/-- Only the kinds of the blocks around a place are seen there. -/
theorem ofBlock_vaguer_of_kinds {ancestors ancestors' : List Block} (b : Block)
    (h : ancestors'.map Block.kind = ancestors.map Block.kind) :
    List.Forall₂ Site.Vaguer (Site.ofBlock ancestors b) (Site.ofBlock ancestors' b) := by
  obtain ⟨kind, labels, range, attributes, children⟩ := b
  exact .cons ⟨.refl _, forall₂_block_refl _, h⟩ (ofBlocks_vaguer_of_kinds children (by simp [h]))

theorem ofBlocks_vaguer_of_kinds {ancestors ancestors' : List Block} (bs : List Block)
    (h : ancestors'.map Block.kind = ancestors.map Block.kind) :
    List.Forall₂ Site.Vaguer (Site.ofBlocks ancestors bs) (Site.ofBlocks ancestors' bs) := by
  cases bs with
  | nil => exact .nil
  | cons b bs => exact List.rel_append (ofBlock_vaguer_of_kinds b h) (ofBlocks_vaguer_of_kinds bs h)

end

variable {ancestors ancestors' : List Block} {b b' : Block}

/-- What is seen of a block that hides a value. -/
theorem Block.Hides.vaguer (h : b.Hides b') : b.Vaguer b' := by
  cases h with
  | here =>
    exact ⟨rfl, rfl, rfl, List.rel_append (forall₂_vaguer_refl _) (.cons (.inr rfl) (forall₂_vaguer_refl _))⟩
  | inside _ => exact ⟨rfl, rfl, rfl, forall₂_vaguer_refl _⟩

/-- The places of a block and of those around one of its blocks, one of which hides a value. -/
theorem ofBlocks_vaguer {before after : List Block}
    (hb : List.Forall₂ Site.Vaguer (Site.ofBlock ancestors b) (Site.ofBlock ancestors' b'))
    (h : ancestors'.map Block.kind = ancestors.map Block.kind) :
    List.Forall₂ Site.Vaguer (Site.ofBlocks ancestors (before ++ b :: after))
      (Site.ofBlocks ancestors' (before ++ b' :: after)) := by
  rw [ofBlocks_append, ofBlocks_append]
  exact List.rel_append (ofBlocks_vaguer_of_kinds before h)
    (List.rel_append hb (ofBlocks_vaguer_of_kinds after h))

theorem ofBlock_vaguer (h : b.Hides b') (hk : ancestors'.map Block.kind = ancestors.map Block.kind) :
    List.Forall₂ Site.Vaguer (Site.ofBlock ancestors b) (Site.ofBlock ancestors' b') := by
  induction h generalizing ancestors ancestors' with
  | here =>
    exact .cons ⟨Block.Hides.here.vaguer, forall₂_block_refl _, hk⟩ (ofBlocks_vaguer_of_kinds _ (by simp [hk]))
  | @inside _ _ _ _ before after c c' h ih =>
    have hchildren : List.Forall₂ Block.Vaguer (before ++ c :: after) (before ++ c' :: after) :=
      List.rel_append (forall₂_block_refl before) (.cons h.vaguer (forall₂_block_refl after))
    exact .cons ⟨h.inside.vaguer, hchildren, hk⟩ (ofBlocks_vaguer (ih (by simp [hk])) (by simp [hk]))

/-- The places of a forest are seen as before, but for the value that is hidden. -/
theorem sites_vaguer {forest forest' : List Block} (h : Hides forest forest') :
    List.Forall₂ Site.Vaguer (sites forest) (sites forest') := by
  cases h with
  | intro h => exact ofBlocks_vaguer (ofBlock_vaguer h rfl) rfl

end Sites

end InfraAudit.Hcl
