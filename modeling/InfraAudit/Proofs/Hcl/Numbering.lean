import InfraAudit.Proofs.Hcl.Ancestry
import InfraAudit.Proofs.Hcl.Traversal

/-!
# InfraAudit.Proofs.Hcl.Numbering — the assembly of a forest

* `Block.parts`: the parts of a block and of the blocks in it, numbered in the order of the walk.
* `Assembly.ofForest`: the assembly of a forest, with the top-level blocks `Block.numbers 0`.
* `holds_at`: every number in the parts of a forest is that of a block, which its parent lists.
* `linked_ofForest`, `walk_ofForest`, `site?_ofForest`: the assembly of a forest is linked, its walks list the
  numbers in order, and the blocks with the ones around them are the places of the forest.
* `Assembly.Dual`, `Assembly.Represents`: what relates walks and ancestry, and linked blocks and nested ones.
-/

namespace InfraAudit.Hcl

/-! ### The parts of a forest -/

namespace Block

/-- The numbers of the blocks of a forest whose walk is numbered from `n` on. -/
def numbers (n : Nat) : List Block → List Nat
  | [] => []
  | b :: bs => n :: numbers (n + b.walk.length) bs

mutual

/-- The parts of a block and of the blocks in it, numbered from `n` on. -/
def parts (parent : Option Nat) (n : Nat) : Block → List Part
  | ⟨kind, labels, range, attributes, children⟩ =>
    ⟨kind, labels, range, attributes, numbers (n + 1) children, parent⟩ :: partsAll (some n) (n + 1) children

/-- The parts of the blocks of a forest, one after the other. -/
def partsAll (parent : Option Nat) (n : Nat) : List Block → List Part
  | [] => []
  | b :: bs => parts parent n b ++ partsAll parent (n + b.walk.length) bs

end

/-- The part of a block with the number `n`. -/
def part (b : Block) (parent : Option Nat) (n : Nat) : Part :=
  ⟨b.kind, b.labels, b.range, b.attributes, numbers (n + 1) b.children, parent⟩

variable {parent : Option Nat} {n c : Nat}

theorem parts_eq (b : Block) : b.parts parent n = b.part parent n :: partsAll (some n) (n + 1) b.children := by
  obtain ⟨kind, labels, range, attributes, children⟩ := b
  rw [parts]
  rfl

theorem walk_eq (b : Block) : b.walk = b :: walkAll b.children := by
  obtain ⟨kind, labels, range, attributes, children⟩ := b
  rw [walk]

theorem length_walk (b : Block) : b.walk.length = (walkAll b.children).length + 1 := by
  rw [walk_eq, List.length_cons]

mutual

theorem length_parts (parent : Option Nat) (n : Nat) (b : Block) : (b.parts parent n).length = b.walk.length := by
  obtain ⟨kind, labels, range, attributes, children⟩ := b
  rw [parts, walk, List.length_cons, List.length_cons, length_partsAll]

theorem length_partsAll (parent : Option Nat) (n : Nat) (bs : List Block) :
    (partsAll parent n bs).length = (walkAll bs).length := by
  cases bs with
  | nil => rfl
  | cons b bs => rw [partsAll, walkAll, List.length_append, List.length_append, length_parts, length_partsAll]

end

theorem partsAll_append (bs cs : List Block) :
    partsAll parent n (bs ++ cs) = partsAll parent n bs ++ partsAll parent (n + (walkAll bs).length) cs := by
  induction bs generalizing n with
  | nil => rfl
  | cons b bs ih =>
    rw [List.cons_append, partsAll, partsAll, ih, walkAll, List.length_append, List.append_assoc, Nat.add_assoc]

theorem numbers_append (bs cs : List Block) :
    numbers n (bs ++ cs) = numbers n bs ++ numbers (n + (walkAll bs).length) cs := by
  induction bs generalizing n with
  | nil => rfl
  | cons b bs ih =>
    rw [List.cons_append, numbers, numbers, ih, walkAll, List.length_append, List.cons_append, Nat.add_assoc]

theorem le_of_mem_numbers {bs : List Block} (h : c ∈ numbers n bs) : n ≤ c ∧ c < n + (walkAll bs).length := by
  induction bs generalizing n with
  | nil => cases h
  | cons b bs ih =>
    have hb := length_walk b
    rw [walkAll, List.length_append]
    rcases List.mem_cons.1 h with rfl | h
    · omega
    · have := ih h
      omega

end Block

namespace Assembly

/-- The assembly of a forest. -/
def ofForest (bs : List Block) : Assembly :=
  ⟨Block.partsAll none 0 bs⟩

/-- The given parts stand in the assembly from the number `n` on. -/
def Holds (σ : Assembly) (n : Nat) (ps : List Part) : Prop :=
  ps <+: σ.parts.drop n

section Segments

variable {σ : Assembly} {n m : Nat} {p : Part} {ps qs : List Part}

theorem holds_cons : σ.Holds n (p :: ps) ↔ σ.parts[n]? = some p ∧ σ.Holds (n + 1) ps := by
  unfold Holds
  rw [← List.head?_drop, ← List.tail_drop]
  cases σ.parts.drop n with
  | nil => simp
  | cons q qs => simp [List.cons_prefix_cons, eq_comm]

theorem holds_append : σ.Holds n (ps ++ qs) ↔ σ.Holds n ps ∧ σ.Holds (n + ps.length) qs := by
  induction ps generalizing n with
  | nil => simp [Holds]
  | cons p ps ih =>
    rw [List.cons_append, holds_cons, holds_cons, ih, List.length_cons, and_assoc, Nat.add_right_comm, Nat.add_assoc]

theorem Holds.le_length (h : σ.Holds n ps) (hps : ps ≠ []) : n + ps.length ≤ σ.parts.length := by
  have hle := h.length_le
  have hpos := List.length_pos_iff.2 hps
  rw [List.length_drop] at hle
  omega

end Segments

/-! ### Blocks among the parts -/

section Blocks

variable {σ : Assembly}

open Block (numbers partsAll walkAll)

theorem Holds.part {parent : Option Nat} {n : Nat} (b : Block) (h : σ.Holds n (b.parts parent n)) :
    σ.parts[n]? = some (b.part parent n) ∧ σ.Holds (n + 1) (partsAll (some n) (n + 1) b.children) := by
  rw [Block.parts_eq] at h
  exact holds_cons.1 h

theorem Holds.cons {parent : Option Nat} {n : Nat} {b : Block} {bs : List Block}
    (h : σ.Holds n (partsAll parent n (b :: bs))) :
    σ.Holds n (b.parts parent n) ∧ σ.Holds (n + b.walk.length) (partsAll parent (n + b.walk.length) bs) := by
  rw [partsAll] at h
  obtain ⟨hb, hbs⟩ := holds_append.1 h
  rw [Block.length_parts] at hbs
  exact ⟨hb, hbs⟩

/-- The children of a block come behind it. -/
theorem Holds.bounds {parent : Option Nat} {n : Nat} (b : Block) (h : σ.Holds n (b.parts parent n)) :
    ∀ c ∈ numbers (n + 1) b.children, n < c ∧ c < σ.parts.length := by
  intro c hc
  have hle := h.le_length (by rw [Block.parts_eq]; exact List.cons_ne_nil _ _)
  rw [Block.length_parts, Block.length_walk] at hle
  have := Block.le_of_mem_numbers hc
  omega

/-- The blocks of a forest name the parent that its parts are made with. -/
theorem Holds.parent?_of_mem {parent : Option Nat} {n c : Nat} {bs : List Block}
    (h : σ.Holds n (partsAll parent n bs)) (hc : c ∈ numbers n bs) :
    σ.parent? c = parent := by
  induction bs generalizing n with
  | nil => cases hc
  | cons b bs ih =>
    obtain ⟨hb, hbs⟩ := h.cons
    rcases List.mem_cons.1 hc with rfl | hc
    · exact parent?_eq (hb.part b).1
    · exact ih hbs hc

mutual

/-- Every number in the parts of a block is that block's or that of a block listed by its parent. -/
theorem Holds.at_block {parent : Option Nat} {n c : Nat} (b : Block) (h : σ.Holds n (b.parts parent n))
    (h1 : n ≤ c) (h2 : c < n + b.walk.length) :
    ∃ (d : Block) (q : Option Nat), σ.Holds c (d.parts q c) ∧
      (c = n ∧ q = parent ∨ ∃ m, m < c ∧ q = some m ∧ c ∈ σ.children m) := by
  rcases Nat.eq_or_lt_of_le h1 with rfl | h1
  · exact ⟨b, parent, h, .inl ⟨rfl, rfl⟩⟩
  · obtain ⟨kind, labels, range, attributes, children⟩ := b
    obtain ⟨hpart, hbs⟩ := h.part
    rw [Block.walk, List.length_cons] at h2
    obtain ⟨d, q, hd, hq⟩ := Holds.at_blocks children hbs h1 (by omega)
    refine ⟨d, q, hd, .inr ?_⟩
    rcases hq with ⟨hmem, rfl⟩ | hq
    · exact ⟨n, h1, rfl, by rw [children_eq hpart]; exact hmem⟩
    · exact hq

theorem Holds.at_blocks {parent : Option Nat} {n c : Nat} (bs : List Block)
    (h : σ.Holds n (partsAll parent n bs)) (h1 : n ≤ c) (h2 : c < n + (walkAll bs).length) :
    ∃ (d : Block) (q : Option Nat), σ.Holds c (d.parts q c) ∧
      (c ∈ numbers n bs ∧ q = parent ∨ ∃ m, m < c ∧ q = some m ∧ c ∈ σ.children m) := by
  cases bs with
  | nil => exact absurd h2 (by simp [walkAll]; omega)
  | cons b bs =>
    obtain ⟨hb, hbs⟩ := h.cons
    rw [walkAll, List.length_append] at h2
    by_cases hc : c < n + b.walk.length
    · obtain ⟨d, q, hd, hq⟩ := Holds.at_block b hb h1 hc
      refine ⟨d, q, hd, hq.imp_left ?_⟩
      rintro ⟨rfl, rfl⟩
      exact ⟨List.mem_cons_self, rfl⟩
    · have hle : n + b.walk.length ≤ c := Nat.le_of_not_lt hc
      obtain ⟨d, q, hd, hq⟩ := Holds.at_blocks bs hbs hle (by omega)
      exact ⟨d, q, hd, hq.imp_left fun hq => ⟨List.mem_cons_of_mem _ hq.1, hq.2⟩⟩

end

mutual

/-- What stands at the number of a block is that block. -/
theorem Holds.block? {parent : Option Nat} {n : Nat} (b : Block) (h : σ.Holds n (b.parts parent n)) :
    σ.block? n = some b := by
  have hc := h.bounds b
  obtain ⟨kind, labels, range, attributes, children⟩ := b
  obtain ⟨hpart, hbs⟩ := h.part
  have hchildren : (numbers (n + 1) children).filterMap σ.block? = children := by
    have hm := congrArg (List.filterMap id) (Holds.blocks children hbs)
    rwa [List.filterMap_map, List.filterMap_map, Function.id_comp, Function.id_comp, List.filterMap_some] at hm
  rw [block?_eq hpart hc]
  simp only [Block.part, hchildren]

theorem Holds.blocks {parent : Option Nat} {n : Nat} (bs : List Block) (h : σ.Holds n (partsAll parent n bs)) :
    (numbers n bs).map σ.block? = bs.map some := by
  cases bs with
  | nil => rfl
  | cons b bs =>
    obtain ⟨hb, hbs⟩ := h.cons
    rw [numbers, List.map_cons, Holds.block? b hb, Holds.blocks bs hbs, List.map_cons]

end

mutual

/-- The walk of a block lists its numbers in order. -/
theorem Holds.walk {parent : Option Nat} {n : Nat} (b : Block) (h : σ.Holds n (b.parts parent n)) :
    σ.walk n = List.range' n b.walk.length := by
  have hc := h.bounds b
  obtain ⟨kind, labels, range, attributes, children⟩ := b
  obtain ⟨hpart, hbs⟩ := h.part
  rw [walk_eq hpart hc, Block.length_walk, List.range'_succ]
  exact congrArg (n :: ·) (Holds.walks children hbs)

theorem Holds.walks {parent : Option Nat} {n : Nat} (bs : List Block) (h : σ.Holds n (partsAll parent n bs)) :
    (numbers n bs).flatMap σ.walk = List.range' n (walkAll bs).length := by
  cases bs with
  | nil => rfl
  | cons b bs =>
    obtain ⟨hb, hbs⟩ := h.cons
    rw [numbers, List.flatMap_cons, Holds.walk b hb, Holds.walks bs hbs, walkAll, List.length_append,
      List.range'_append_1]

end

/-- The blocks around those that name the given parent. -/
def around (σ : Assembly) : Option Nat → List Block
  | none => []
  | some p => (σ.block? p).toList ++ σ.ancestors p

theorem ancestors_eq_around {parent : Option Nat} {n : Nat} (h : σ.parent? n = parent) (hp : ∀ p ∈ parent, p < n) :
    σ.ancestors n = σ.around parent := by
  cases parent with
  | none => exact ancestors_of_none h
  | some p => exact ancestors_of_some h (hp p rfl)

mutual

/-- The places of a block are found at its numbers, in order. -/
theorem Holds.sites_block {parent : Option Nat} {n : Nat} (b : Block) (h : σ.Holds n (b.parts parent n))
    (hp : ∀ p ∈ parent, p < n) :
    (List.range' n b.walk.length).map σ.site? = (Site.ofBlock (σ.around parent) b).map some := by
  have hblock := Holds.block? b h
  obtain ⟨kind, labels, range, attributes, children⟩ := b
  obtain ⟨hpart, hbs⟩ := h.part
  have hsite : σ.site? n = some ⟨⟨kind, labels, range, attributes, children⟩, σ.around parent⟩ := by
    rw [site?, hblock, ancestors_eq_around (parent?_eq hpart) hp]
    rfl
  have hchildren : σ.around (some n) = ⟨kind, labels, range, attributes, children⟩ :: σ.around parent := by
    rw [around, hblock, ancestors_eq_around (parent?_eq hpart) hp]
    rfl
  rw [Block.length_walk, List.range'_succ, List.map_cons, Site.ofBlock, List.map_cons, hsite, ← hchildren]
  exact congrArg _ (Holds.sites_blocks children hbs (by simp))

theorem Holds.sites_blocks {parent : Option Nat} {n : Nat} (bs : List Block)
    (h : σ.Holds n (partsAll parent n bs)) (hp : ∀ p ∈ parent, p < n) :
    (List.range' n (walkAll bs).length).map σ.site? = (Site.ofBlocks (σ.around parent) bs).map some := by
  cases bs with
  | nil => rfl
  | cons b bs =>
    obtain ⟨hb, hbs⟩ := h.cons
    have hp' : ∀ p ∈ parent, p < n + b.walk.length := fun p hmem => Nat.lt_add_right _ (hp p hmem)
    rw [walkAll, List.length_append, ← List.range'_append_1, List.map_append, Site.ofBlocks, List.map_append,
      Holds.sites_block b hb hp, Holds.sites_blocks bs hbs hp']

end

theorem lt_length_of_block? {n : Nat} {b : Block} (h : σ.block? n = some b) : n < σ.parts.length := by
  by_contra hn
  rw [Assembly.block?, List.getElem?_eq_none (Nat.le_of_not_lt hn)] at h
  cases h

theorem map_block_site? (n : Nat) : (σ.site? n).map Site.block = σ.block? n := by
  rw [site?, Option.map_map]
  exact Option.map_id'

end Blocks

/-! ### The assembly of a forest -/

section Forest

variable (bs : List Block)

theorem holds_ofForest : (ofForest bs).Holds 0 (Block.partsAll none 0 bs) := by
  rw [Holds, List.drop_zero]
  exact List.prefix_refl _

theorem length_ofForest : (ofForest bs).parts.length = (Block.walkAll bs).length :=
  Block.length_partsAll none 0 bs

/-- The block with a number below the length, and the parent that lists it. -/
theorem holds_at {c : Nat} (hc : c < (ofForest bs).parts.length) :
    ∃ (d : Block) (q : Option Nat), (ofForest bs).Holds c (d.parts q c) ∧
      (c ∈ Block.numbers 0 bs ∧ q = none ∨ ∃ m, m < c ∧ q = some m ∧ c ∈ (ofForest bs).children m) := by
  rw [length_ofForest] at hc
  exact (holds_ofForest bs).at_blocks bs (Nat.zero_le c) (by omega)

theorem linked_ofForest : (ofForest bs).Linked := by
  have key {n c : Nat} (h : c ∈ (ofForest bs).children n) : n < c ∧ (ofForest bs).parent? c = some n := by
    have hn : n < (ofForest bs).parts.length := by
      rw [children] at h
      by_contra hn
      rw [List.getElem?_eq_none (Nat.le_of_not_lt hn)] at h
      cases h
    obtain ⟨d, q, hd, -⟩ := holds_at bs hn
    obtain ⟨hpart, hbs⟩ := hd.part
    rw [children_eq hpart] at h
    exact ⟨(hd.bounds d c h).1, hbs.parent?_of_mem h⟩
  refine ⟨fun h => (key h).1, fun {n c} => ⟨fun h => (key h).2, fun h => ?_⟩⟩
  obtain ⟨d, q, hd, hq⟩ := holds_at bs (lt_length_of_parent? h)
  rw [parent?_eq (hd.part d).1] at h
  rcases hq with ⟨-, rfl⟩ | ⟨m, -, rfl, hm⟩
  · cases h
  · cases h
    exact hm

/-- A block without a parent is one of the top-level blocks. -/
theorem mem_numbers_of_parent? {c : Nat} (hc : c < (ofForest bs).parts.length)
    (h : (ofForest bs).parent? c = none) : c ∈ Block.numbers 0 bs := by
  obtain ⟨d, q, hd, hq⟩ := holds_at bs hc
  rw [parent?_eq (hd.part d).1] at h
  rcases hq with ⟨hmem, -⟩ | ⟨m, -, rfl, -⟩
  · exact hmem
  · cases h

/-- The walks of the top-level blocks list all numbers in order. -/
theorem walk_ofForest :
    (Block.numbers 0 bs).flatMap (ofForest bs).walk = List.range (ofForest bs).parts.length := by
  rw [(holds_ofForest bs).walks bs, length_ofForest, List.range_eq_range']

/-- The blocks with the ones around them are the places of the forest. -/
theorem site?_ofForest (c : Nat) : (ofForest bs).site? c = (sites bs)[c]? := by
  have h : (List.range' 0 (Block.walkAll bs).length).map (ofForest bs).site? = (sites bs).map some :=
    (holds_ofForest bs).sites_blocks bs (by simp)
  have hlen : (sites bs).length = (Block.walkAll bs).length := by
    rw [← map_block_sites, List.length_map]
  have hc := congrArg (·[c]?) h
  simp only [List.getElem?_map] at hc
  by_cases hlt : c < (Block.walkAll bs).length
  · rw [List.getElem?_range' hlt] at hc
    rw [List.getElem?_eq_getElem (hlen ▸ hlt)] at hc ⊢
    simpa using hc
  · have hpart : (ofForest bs).parts[c]? = none := by
      rw [List.getElem?_eq_none_iff, length_ofForest]
      omega
    rw [List.getElem?_eq_none (by omega), site?, Assembly.block?, hpart]
    rfl

end Forest

/-! ### Duality -/

/-- Traversal and ancestry in linked blocks, of which `tops` are the top-level ones. -/
structure Dual (σ : Assembly) (tops : List Nat) : Prop where
  /-- The walk over the top-level blocks visits every block once, in the order of the numbers. -/
  once : tops.flatMap σ.walk = List.range σ.parts.length
  /-- A parent has the smaller number. -/
  parent_lt : ∀ {c p : Nat}, σ.parent? c = some p → p < c
  /-- A block is around another if and only if its walk properly contains that one. -/
  mem_above_iff : ∀ {b c : Nat}, b < σ.parts.length → (b ∈ σ.above c ↔ c ∈ σ.walk b ∧ c ≠ b)
  /-- The blocks around are listed innermost first, each the parent of the one before. -/
  innermost : ∀ c : Nat, (c :: σ.above c).IsChain fun m p => σ.parent? m = some p
  /-- The last of them is a top-level block, which has no parent. -/
  outermost : ∀ {c : Nat}, c < σ.parts.length → ∃ t ∈ tops, (c :: σ.above c).getLast? = some t ∧ σ.parent? t = none

/-- The numbers of linked blocks stand for the blocks of a forest, and what is followed by number is what the forest
has there. -/
structure Represents (σ : Assembly) (tops : List Nat) (forest : List Block) : Prop where
  tops : tops.map σ.block? = forest.map some
  block : ∀ c : Nat, σ.block? c = (Block.walkAll forest)[c]?
  walk : ∀ {c : Nat} {b : Block}, σ.block? c = some b → (σ.walk c).map σ.block? = b.walk.map some
  ancestors : ∀ {c : Nat} {s : Site}, (sites forest)[c]? = some s → (σ.above c).map σ.block? = s.ancestors.map some

section Forest

variable (bs : List Block)

theorem dual_ofForest : (ofForest bs).Dual (Block.numbers 0 bs) where
  once := walk_ofForest bs
  parent_lt := (linked_ofForest bs).lt_of_parent?
  mem_above_iff := (linked_ofForest bs).mem_above_iff_mem_walk
  innermost := (linked_ofForest bs).isChain_above
  outermost {c} hc := by
    obtain ⟨t, ht, hnone⟩ := (linked_ofForest bs).getLast_above c
    have hle : t < (ofForest bs).parts.length := by
      rcases List.mem_cons.1 (List.mem_of_getLast? ht) with rfl | hmem
      · exact hc
      · exact Nat.lt_trans ((linked_ofForest bs).lt_of_mem_above hmem) hc
    exact ⟨t, mem_numbers_of_parent? bs hle hnone, ht, hnone⟩

theorem block?_ofForest (c : Nat) : (ofForest bs).block? c = (Block.walkAll bs)[c]? := by
  rw [← map_block_site?, site?_ofForest, ← List.getElem?_map, map_block_sites]

theorem isSome_block?_ofForest {c : Nat} (hc : c < (ofForest bs).parts.length) :
    ((ofForest bs).block? c).isSome := by
  rw [block?_ofForest, List.getElem?_eq_getElem (length_ofForest bs ▸ hc)]
  rfl

theorem represents_ofForest : (ofForest bs).Represents (Block.numbers 0 bs) bs where
  tops := (holds_ofForest bs).blocks bs
  block := block?_ofForest bs
  walk {c b} hb := by
    obtain ⟨d, q, hd, hq⟩ := holds_at bs (lt_length_of_block? hb)
    obtain rfl : d = b := Option.some.inj ((hd.block? d).symm.trans hb)
    have hp : ∀ p ∈ q, p < c := by
      rintro p rfl
      rcases hq with ⟨-, h⟩ | ⟨m, hm, h, -⟩
      · cases h
      · cases h
        exact hm
    have hs := congrArg (List.map (Option.map Site.block)) (hd.sites_block d hp)
    rw [List.map_map, List.map_map, Function.comp_def, Function.comp_def] at hs
    simp only [map_block_site?, Option.map_some] at hs
    rw [hd.walk d, hs, ← map_block_ofBlock ((ofForest bs).around q), List.map_map]
    rfl
  ancestors {c s} hs := by
    rw [← site?_ofForest] at hs
    obtain ⟨b, hb, rfl⟩ := Option.map_eq_some_iff.1 hs
    have hc := lt_length_of_block? hb
    have hsome : ∀ o ∈ (((ofForest bs).above c).map (ofForest bs).block?), o.isSome = true := by
      refine List.forall_mem_map.2 fun p hp => ?_
      exact isSome_block?_ofForest bs (Nat.lt_trans ((linked_ofForest bs).lt_of_mem_above hp) hc)
    show _ = ((ofForest bs).ancestors c).map some
    rw [(linked_ofForest bs).ancestors_eq, List.map_filterMap_some_eq_filter_map_isSome,
      List.filter_eq_self.2 hsome]

end Forest

/-- A place is within a block of the given kind and first label if and only if the walk of such a block properly
contains it. -/
theorem Represents.isWithin_iff {σ : Assembly} {tops : List Nat} {forest : List Block} {c : Nat} {s : Site}
    (hr : σ.Represents tops forest) (hd : σ.Dual tops) (hs : (sites forest)[c]? = some s) (kind : String)
    (label : Option String) :
    s.isWithin kind label = true ↔
      ∃ (b : Nat) (x : Block), σ.block? b = some x ∧ c ∈ σ.walk b ∧ c ≠ b ∧ x.kind = kind ∧
        ∀ l ∈ label, x.typeLabel? = some l := by
  have hmem (x : Block) : x ∈ s.ancestors ↔ ∃ b ∈ σ.above c, σ.block? b = some x := by
    rw [← List.mem_map, hr.ancestors hs]
    simp
  have htest (x : Block) : (x.kind == kind && (label.isNone || x.typeLabel? == label)) = true ↔
      x.kind = kind ∧ ∀ l ∈ label, x.typeLabel? = some l := by
    cases label <;> simp
  rw [Site.isWithin, List.any_eq_true]
  constructor
  · rintro ⟨x, hx, ht⟩
    obtain ⟨b, hb, hbx⟩ := (hmem x).1 hx
    obtain ⟨hwalk, hne⟩ := (hd.mem_above_iff (lt_length_of_block? hbx)).1 hb
    exact ⟨b, x, hbx, hwalk, hne, (htest x).1 ht⟩
  · rintro ⟨b, x, hbx, hwalk, hne, ht⟩
    have hb := (hd.mem_above_iff (lt_length_of_block? hbx)).2 ⟨hwalk, hne⟩
    exact ⟨x, (hmem x).2 ⟨b, hb, hbx⟩, (htest x).2 ht⟩

end Assembly

end InfraAudit.Hcl
