import InfraAudit.Hcl.Block

/-!
# InfraAudit.Proofs.Hcl.Traversal — the walk over a forest

* `sites_append`: the places of two forests are those of the first and then those of the second.
* `map_block_sites`: the blocks at the places of a forest are those of the walk.
* `walk_subset_walkAll`: a walk that reaches a block reaches the blocks inside of it.
-/

namespace InfraAudit.Hcl

/-! ### Places -/

section Sites

variable {ancestors : List Block}

theorem ofBlocks_append (bs cs : List Block) :
    Site.ofBlocks ancestors (bs ++ cs) = Site.ofBlocks ancestors bs ++ Site.ofBlocks ancestors cs := by
  induction bs with
  | nil => rfl
  | cons b bs ih => rw [List.cons_append, Site.ofBlocks, Site.ofBlocks, ih, List.append_assoc]

theorem sites_append (bs cs : List Block) : sites (bs ++ cs) = sites bs ++ sites cs :=
  ofBlocks_append bs cs

theorem sites_flatMap {α : Type} (l : List α) (forest : α → List Block) :
    sites (l.flatMap forest) = l.flatMap fun x => sites (forest x) := by
  induction l with
  | nil => rfl
  | cons x l ih => rw [List.flatMap_cons, List.flatMap_cons, sites_append, ih]

mutual

theorem map_block_ofBlock (ancestors : List Block) (b : Block) :
    (Site.ofBlock ancestors b).map (·.block) = b.walk := by
  obtain ⟨kind, labels, range, attributes, children⟩ := b
  rw [Site.ofBlock, Block.walk, List.map_cons, map_block_ofBlocks]

theorem map_block_ofBlocks (ancestors : List Block) (bs : List Block) :
    (Site.ofBlocks ancestors bs).map (·.block) = Block.walkAll bs := by
  cases bs with
  | nil => rfl
  | cons b bs => rw [Site.ofBlocks, Block.walkAll, List.map_append, map_block_ofBlock, map_block_ofBlocks]

end

/-- The blocks of the places are those of the walk, in the same order. -/
theorem map_block_sites (forest : List Block) : (sites forest).map (·.block) = Block.walkAll forest :=
  map_block_ofBlocks [] forest

theorem block_mem_walkAll {forest : List Block} {s : Site} (h : s ∈ sites forest) :
    s.block ∈ Block.walkAll forest :=
  map_block_sites forest ▸ List.mem_map_of_mem h

end Sites

/-! ### Walks inside of walks -/

namespace Block

theorem mem_walk_self (b : Block) : b ∈ b.walk := by
  obtain ⟨kind, labels, range, attributes, children⟩ := b
  exact List.mem_cons_self

mutual

theorem walk_subset_walk (b : Block) {c : Block} (h : c ∈ b.walk) : c.walk ⊆ b.walk := by
  obtain ⟨kind, labels, range, attributes, children⟩ := b
  rw [walk, List.mem_cons] at h
  rcases h with rfl | h
  · exact List.Subset.refl _
  · intro d hd
    rw [walk]
    exact List.mem_cons_of_mem _ (walk_subset_walkAll children h hd)

theorem walk_subset_walkAll (bs : List Block) {c : Block} (h : c ∈ walkAll bs) : c.walk ⊆ walkAll bs := by
  cases bs with
  | nil => cases h
  | cons b bs =>
    rw [walkAll, List.mem_append] at h
    intro d hd
    rw [walkAll, List.mem_append]
    exact h.imp (fun h => walk_subset_walk b h hd) fun h => walk_subset_walkAll bs h hd

end

theorem mem_walkAll {b : Block} {bs : List Block} (h : b ∈ bs) : b ∈ walkAll bs := by
  induction bs with
  | nil => cases h
  | cons c cs ih =>
    rw [walkAll]
    rcases List.mem_cons.1 h with rfl | h
    · exact List.mem_append_left _ (mem_walk_self b)
    · exact List.mem_append_right _ (ih h)

/-- The children of a block are reached by its walk. -/
theorem mem_walk_of_mem_children {b c : Block} (h : c ∈ b.children) : c ∈ b.walk := by
  obtain ⟨kind, labels, range, attributes, children⟩ := b
  rw [walk]
  exact List.mem_cons_of_mem _ (mem_walkAll h)

end Block

end InfraAudit.Hcl
