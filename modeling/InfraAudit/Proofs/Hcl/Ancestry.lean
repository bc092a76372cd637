import InfraAudit.Hcl.Assembly
import Mathlib.Data.List.Chain
import Mathlib.Logic.Relation

/-!
# InfraAudit.Proofs.Hcl.Ancestry — parent links and children

An assembly can be followed in two ways, down the lists of children and up the links to the parents.

* `Assembly.walk`: the numbers of a block and of the blocks in it; `Assembly.above`: those of the blocks around it.
* `Assembly.Linked`: a child has the greater number, and children and parents name each other.
* `Linked.mem_walk_iff`, `Linked.mem_above_iff`: both ways follow the one relation of parent and child.
* `Linked.mem_above_iff_mem_walk`: a block is around another if and only if its walk reaches that one.
* `ancestors_eq`: the blocks around a block are those with the numbers above it.
-/

namespace InfraAudit.Hcl.Assembly

/-- The number of the block named as the parent. -/
def parent? (σ : Assembly) (n : Nat) : Option Nat :=
  (σ.parts[n]?).bind Part.parent

/-- The numbers of the children. -/
def children (σ : Assembly) (n : Nat) : List Nat :=
  (σ.parts[n]?.map Part.children).getD []

/-- The numbers of a block and of the blocks in it, each before its children, as the children are listed. -/
def walk (σ : Assembly) (n : Nat) : List Nat :=
  match σ.parts[n]? with
  | none => []
  | some p => n :: p.children.flatMap fun c => if _h : n < c ∧ c < σ.parts.length then σ.walk c else []
termination_by σ.parts.length - n
decreasing_by omega

/-- The numbers of the blocks around a block, innermost first, as the links to the parents lead. -/
def above (σ : Assembly) (n : Nat) : List Nat :=
  match σ.parent? n with
  | none => []
  | some p => if _h : p < n then p :: σ.above p else []
termination_by n

/-- One block is a child of the other. -/
abbrev IsChild (σ : Assembly) (n c : Nat) : Prop :=
  c ∈ σ.children n

/-- Children come behind their parents, and every child is listed by the block that it names as its parent. -/
structure Linked (σ : Assembly) : Prop where
  lt : ∀ {n c : Nat}, c ∈ σ.children n → n < c
  mem_children_iff : ∀ {n c : Nat}, c ∈ σ.children n ↔ σ.parent? c = some n

section Links

variable {σ : Assembly} {n c p : Nat} {part : Part}

theorem children_eq (h : σ.parts[n]? = some part) : σ.children n = part.children := by
  rw [children, h]
  rfl

theorem parent?_eq (h : σ.parts[n]? = some part) : σ.parent? n = part.parent := by
  rw [parent?, h]
  rfl

theorem lt_length_of_parent? (h : σ.parent? n = some p) : n < σ.parts.length := by
  obtain ⟨part, hpart, -⟩ := Option.bind_eq_some_iff.1 h
  exact (List.getElem?_eq_some_iff.1 hpart).1

/-- The walk of a block whose children come behind it. -/
theorem walk_eq (h : σ.parts[n]? = some part) (hc : ∀ c ∈ part.children, n < c ∧ c < σ.parts.length) :
    σ.walk n = n :: part.children.flatMap σ.walk := by
  rw [walk, h]
  simp only
  congr 1
  refine List.flatMap_congr fun c hmem => ?_
  exact dif_pos (hc c hmem)

/-- The block that a part stands for if its children come behind it. -/
theorem block?_eq (h : σ.parts[n]? = some part) (hc : ∀ c ∈ part.children, n < c ∧ c < σ.parts.length) :
    σ.block? n =
      some ⟨part.kind, part.labels, part.range, part.attributes, part.children.filterMap σ.block?⟩ := by
  rw [block?, h]
  simp only [Option.some.injEq, Block.mk.injEq, true_and]
  refine List.filterMap_congr fun c hmem => ?_
  exact dif_pos (hc c hmem)

theorem above_of_none (h : σ.parent? n = none) : σ.above n = [] := by
  rw [above, h]

theorem above_of_some (h : σ.parent? n = some p) (hp : p < n) : σ.above n = p :: σ.above p := by
  rw [above, h]
  exact dif_pos hp

theorem ancestors_of_none (h : σ.parent? n = none) : σ.ancestors n = [] := by
  rw [parent?] at h
  rw [ancestors, h]

theorem ancestors_of_some (h : σ.parent? n = some p) (hp : p < n) :
    σ.ancestors n = (σ.block? p).toList ++ σ.ancestors p := by
  rw [parent?] at h
  rw [ancestors, h]
  exact dif_pos hp

end Links

namespace Linked

variable {σ : Assembly} {b c n p : Nat}

theorem lt_of_parent? (h : σ.Linked) (hp : σ.parent? n = some p) : p < n :=
  h.lt (h.mem_children_iff.2 hp)

theorem lt_length (h : σ.Linked) (hc : c ∈ σ.children n) : c < σ.parts.length :=
  lt_length_of_parent? (h.mem_children_iff.1 hc)

theorem above_eq (h : σ.Linked) (hp : σ.parent? n = some p) : σ.above n = p :: σ.above p :=
  above_of_some hp (h.lt_of_parent? hp)

theorem walk_eq (h : σ.Linked) (hn : n < σ.parts.length) : σ.walk n = n :: (σ.children n).flatMap σ.walk := by
  have hpart := List.getElem?_eq_getElem hn
  have hc := children_eq hpart
  rw [Assembly.walk_eq hpart, hc]
  intro c hmem
  rw [← hc] at hmem
  exact ⟨h.lt hmem, h.lt_length hmem⟩

theorem lt_of_transGen (h : σ.Linked) (hbc : Relation.TransGen (IsChild σ) b c) : b < c := by
  induction hbc with
  | single hc => exact h.lt hc
  | tail _ hc ih => exact Nat.lt_trans ih (h.lt hc)

/-- The walk follows the children, from the block on. -/
theorem mem_walk_iff (h : σ.Linked) (hb : b < σ.parts.length) :
    c ∈ σ.walk b ↔ Relation.ReflTransGen (IsChild σ) b c := by
  constructor
  · intro hc
    induction hk : σ.parts.length - b using Nat.strongRecOn generalizing b with
    | ind k ih =>
      rw [h.walk_eq hb, List.mem_cons, List.mem_flatMap] at hc
      rcases hc with rfl | ⟨m, hm, hc⟩
      · exact .refl
      · have hlt := h.lt hm
        have hlen := h.lt_length hm
        exact .head hm (ih (σ.parts.length - m) (by omega) hlen hc rfl)
  · intro hbc
    induction hbc using Relation.ReflTransGen.head_induction_on with
    | refl =>
      rw [h.walk_eq hb]
      exact List.mem_cons_self
    | head hm _ ih =>
      rw [h.walk_eq hb]
      exact List.mem_cons_of_mem _ (List.mem_flatMap.2 ⟨_, hm, ih (h.lt_length hm)⟩)

/-- The links to the parents follow the children backwards. -/
theorem mem_above_iff (h : σ.Linked) : b ∈ σ.above c ↔ Relation.TransGen (IsChild σ) b c := by
  constructor
  · intro hb
    induction c using Nat.strongRecOn with
    | ind c ih =>
      cases hp : σ.parent? c with
      | none =>
        rw [above_of_none hp] at hb
        cases hb
      | some p =>
        have hchild : IsChild σ p c := h.mem_children_iff.2 hp
        rw [h.above_eq hp, List.mem_cons] at hb
        rcases hb with rfl | hb
        · exact .single hchild
        · exact .tail (ih p (h.lt hchild) hb) hchild
  · intro hbc
    induction hbc with
    | single hc =>
      rw [h.above_eq (h.mem_children_iff.1 hc)]
      exact List.mem_cons_self
    | tail _ hc ih =>
      rw [h.above_eq (h.mem_children_iff.1 hc)]
      exact List.mem_cons_of_mem _ ih

/-- A block is around another if and only if its walk reaches that one. -/
theorem mem_above_iff_mem_walk (h : σ.Linked) (hb : b < σ.parts.length) :
    b ∈ σ.above c ↔ c ∈ σ.walk b ∧ c ≠ b := by
  rw [h.mem_above_iff, h.mem_walk_iff hb, Relation.reflTransGen_iff_eq_or_transGen]
  constructor
  · intro hbc
    exact ⟨.inr hbc, Nat.ne_of_gt (h.lt_of_transGen hbc)⟩
  · rintro ⟨rfl | hbc, hne⟩
    · exact absurd rfl hne
    · exact hbc

theorem lt_of_mem_above (h : σ.Linked) (hb : b ∈ σ.above c) : b < c :=
  h.lt_of_transGen (h.mem_above_iff.1 hb)

/-- Each block above is the parent of the one before. -/
theorem isChain_above (h : σ.Linked) (c : Nat) : (c :: σ.above c).IsChain fun m p => σ.parent? m = some p := by
  induction c using Nat.strongRecOn with
  | ind c ih =>
    cases hp : σ.parent? c with
    | none =>
      rw [above_of_none hp]
      exact .singleton c
    | some p =>
      rw [h.above_eq hp]
      exact .cons_cons hp (ih p (h.lt_of_parent? hp))

/-- The last block above has no parent. -/
theorem getLast_above (h : σ.Linked) (c : Nat) :
    ∃ t, (c :: σ.above c).getLast? = some t ∧ σ.parent? t = none := by
  induction c using Nat.strongRecOn with
  | ind c ih =>
    cases hp : σ.parent? c with
    | none =>
      rw [above_of_none hp]
      exact ⟨c, rfl, hp⟩
    | some p =>
      obtain ⟨t, ht, hnone⟩ := ih p (h.lt_of_parent? hp)
      refine ⟨t, ?_, hnone⟩
      rw [h.above_eq hp, List.getLast?_cons_cons, ht]

/-- The blocks around a block are those with the numbers above it. -/
theorem ancestors_eq (h : σ.Linked) (c : Nat) : σ.ancestors c = (σ.above c).filterMap σ.block? := by
  induction c using Nat.strongRecOn with
  | ind c ih =>
    cases hp : σ.parent? c with
    | none =>
      rw [ancestors_of_none hp, above_of_none hp]
      rfl
    | some p =>
      have hlt := h.lt_of_parent? hp
      rw [ancestors_of_some hp hlt, h.above_eq hp, ih p hlt, List.filterMap_cons]
      cases σ.block? p <;> rfl

end Linked

end InfraAudit.Hcl.Assembly
