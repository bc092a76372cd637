import InfraAudit.Proofs.Check.Reporting
import InfraAudit.Proofs.Hcl.Enclosure

/-!
# InfraAudit.Proofs.Check.Pointing — where the findings of built-in checks point

* `Site.top`: the top-level block around a place; `top_mem`: it is in the forest, and its walk reaches the place.
* `Block.within_of_mem_walk`: if blocks enclose what is directly in them, they enclose all blocks inside.
* `Block.within_of_mem_nearRanges`: they enclose all ranges that a check may report.
* `points_into_block`: a finding of a built-in check points to the block it is about, to a child or to an attribute of
  one of these, inside of the block, of the top-level block around it and of the file.
-/

namespace InfraAudit

open InfraAudit.Hcl

theorem SourceRange.Within.trans {filename : String} {first last : Nat} {r q : SourceRange}
    (h : r.Within q.filename q.startLine q.endLine) (hq : q.Within filename first last) :
    r.Within filename first last :=
  ⟨h.1.trans hq.1, Nat.le_trans hq.2.1 h.2.1, h.2.2.1, Nat.le_trans h.2.2.2 hq.2.2.2⟩

theorem SourceRange.within_self (r : SourceRange) : r.Within r.filename r.startLine r.endLine :=
  ⟨rfl, Nat.le_refl _, r.start_le_end, Nat.le_refl _⟩

namespace Hcl

/-! ### The top-level block of a place -/

/-- The top-level block around a place: the outermost of its block and the blocks around it. -/
def Site.top (s : Site) : Block :=
  (s.block :: s.ancestors).getLast (List.cons_ne_nil _ _)

mutual

/-- The blocks from a place in a block outwards end with that block and those around it. -/
theorem around_of_mem_ofBlock (ancestors : List Block) (b : Block) {s : Site} (h : s ∈ Site.ofBlock ancestors b) :
    ∃ inner, s.block :: s.ancestors = inner ++ b :: ancestors := by
  obtain ⟨kind, labels, range, attributes, children⟩ := b
  rw [Site.ofBlock, List.mem_cons] at h
  rcases h with rfl | h
  · exact ⟨[], rfl⟩
  · obtain ⟨c, -, inner, hs⟩ := around_of_mem_ofBlocks _ children h
    exact ⟨inner ++ [c], by rw [hs, List.append_assoc]; rfl⟩

theorem around_of_mem_ofBlocks (ancestors : List Block) (bs : List Block) {s : Site}
    (h : s ∈ Site.ofBlocks ancestors bs) : ∃ b ∈ bs, ∃ inner, s.block :: s.ancestors = inner ++ b :: ancestors := by
  cases bs with
  | nil => cases h
  | cons b bs =>
    rw [Site.ofBlocks, List.mem_append] at h
    rcases h with h | h
    · exact ⟨b, List.mem_cons_self, around_of_mem_ofBlock ancestors b h⟩
    · obtain ⟨c, hc, hs⟩ := around_of_mem_ofBlocks ancestors bs h
      exact ⟨c, List.mem_cons_of_mem _ hc, hs⟩

end

theorem exists_mem_ofBlock {ancestors bs : List Block} {s : Site} (h : s ∈ Site.ofBlocks ancestors bs) :
    ∃ b ∈ bs, s ∈ Site.ofBlock ancestors b := by
  induction bs with
  | nil => cases h
  | cons b bs ih =>
    rw [Site.ofBlocks, List.mem_append] at h
    rcases h with h | h
    · exact ⟨b, List.mem_cons_self, h⟩
    · obtain ⟨c, hc, hs⟩ := ih h
      exact ⟨c, List.mem_cons_of_mem _ hc, hs⟩

/-- The top-level block around a place is in the forest, and its walk reaches the place. -/
theorem top_mem {forest : List Block} {s : Site} (h : s ∈ sites forest) : s.top ∈ forest ∧ s.block ∈ s.top.walk := by
  obtain ⟨t, ht, hs⟩ := exists_mem_ofBlock h
  obtain ⟨inner, hinner⟩ := around_of_mem_ofBlock [] t hs
  have htop : s.top = t := by
    simp only [Site.top, hinner, List.getLast_append_of_ne_nil _ (List.cons_ne_nil _ _), List.getLast_singleton]
  rw [htop]
  exact ⟨ht, map_block_ofBlock [] t ▸ List.mem_map_of_mem hs⟩

/-! ### Blocks inside of blocks -/

namespace Block

mutual

/-- If all blocks of a walk enclose what is directly in them, the first one encloses all of them. -/
theorem within_of_mem_walk (b : Block) (h : ∀ x ∈ b.walk, x.Encloses) {c : Block} (hc : c ∈ b.walk) :
    c.range.Within b.range.filename b.range.startLine b.range.endLine := by
  have hb : b.Encloses := h b (mem_walk_self b)
  obtain ⟨kind, labels, range, attributes, children⟩ := b
  rw [walk, List.mem_cons] at hc
  rcases hc with rfl | hc
  · exact range.within_self
  · have hall : ∀ x ∈ walkAll children, x.Encloses := fun x hx => h x (List.mem_cons_of_mem _ hx)
    obtain ⟨x, hx, hcx⟩ := exists_within_of_mem_walkAll children hall hc
    exact hcx.trans (hb.children x hx)

theorem exists_within_of_mem_walkAll (bs : List Block) (h : ∀ x ∈ walkAll bs, x.Encloses) {c : Block}
    (hc : c ∈ walkAll bs) :
    ∃ b ∈ bs, c.range.Within b.range.filename b.range.startLine b.range.endLine := by
  cases bs with
  | nil => cases hc
  | cons b bs =>
    rw [walkAll] at h hc
    rcases List.mem_append.1 hc with hc | hc
    · exact ⟨b, List.mem_cons_self, within_of_mem_walk b (fun x hx => h x (List.mem_append_left _ hx)) hc⟩
    · obtain ⟨x, hx, hcx⟩ := exists_within_of_mem_walkAll bs (fun x hx => h x (List.mem_append_right _ hx)) hc
      exact ⟨x, List.mem_cons_of_mem _ hx, hcx⟩

end

variable {b : Block} {r : SourceRange}

theorem mem_ownRanges_iff : r ∈ b.ownRanges ↔ r = b.range ∨ ∃ a ∈ b.attributes, r = a.range := by
  simp only [ownRanges, List.mem_cons, List.mem_map, eq_comm]

theorem mem_nearRanges_iff :
    r ∈ b.nearRanges ↔ r = b.range ∨ (∃ a ∈ b.attributes, r = a.range) ∨
      (∃ c ∈ b.children, r = c.range) ∨ ∃ c ∈ b.children, ∃ a ∈ c.attributes, r = a.range := by
  simp only [nearRanges, List.mem_append, List.mem_flatMap, mem_ownRanges_iff, and_or_left, exists_or, or_assoc]

theorem within_of_mem_ownRanges (h : b.Encloses) (hr : r ∈ b.ownRanges) :
    r.Within b.range.filename b.range.startLine b.range.endLine := by
  rcases mem_ownRanges_iff.1 hr with rfl | ⟨a, ha, rfl⟩
  · exact b.range.within_self
  · exact h.attributes a ha

/-- A block encloses the ranges that a check may report on it. -/
theorem within_of_mem_nearRanges (h : ∀ x ∈ b.walk, x.Encloses) (hr : r ∈ b.nearRanges) :
    r.Within b.range.filename b.range.startLine b.range.endLine := by
  have hb : b.Encloses := h b (mem_walk_self b)
  rw [nearRanges, List.mem_append, List.mem_flatMap] at hr
  rcases hr with hr | ⟨c, hc, hr⟩
  · exact within_of_mem_ownRanges hb hr
  · have hchild : c.Encloses := h c (mem_walk_of_mem_children hc)
    exact (within_of_mem_ownRanges hchild hr).trans (hb.children c hc)

end Block

end Hcl

/-! ### Findings of built-in checks -/

/-- No built-in check fails, so all that one finds is kept. -/
theorem Check.kept_of_mem_builtins {c : Check} (hc : c ∈ builtins) (s : Site) :
    (c.apply s).kept = (c.apply s).found := by
  have hall : ∀ c ∈ builtins, ∀ s : Site, (c.apply s).failure = none := by
    simp only [builtins, List.forall_mem_cons]
    repeat refine ⟨fun _ => rfl, ?_⟩
    exact List.forall_mem_nil _
  rw [Verdict.kept, hall c hc s]
  rfl

/-- A finding of a built-in check carries the code of the check and points to the block it is about, to an attribute or
a child of it, or to an attribute of a child.  So it names the file and lies inside of the block, of the top-level
block around it and of the lines of the file. -/
theorem points_into_block {filename source : String} {d : Document}
    (h : (Document.parse filename source).outcome = .ok d) {c : Check} (hc : c ∈ builtins) {s : Site}
    (hs : s ∈ sites d.blocks) {f : Finding} (hf : f ∈ (c.apply s).found) :
    f.code = c.code ∧
      (f.range = s.block.range ∨ (∃ a ∈ s.block.attributes, f.range = a.range) ∨
        (∃ b ∈ s.block.children, f.range = b.range) ∨
        ∃ b ∈ s.block.children, ∃ a ∈ b.attributes, f.range = a.range) ∧
      f.range.Within filename s.block.range.startLine s.block.range.endLine ∧
      (s.top ∈ d.blocks ∧ s.block ∈ s.top.walk ∧
        f.range.Within filename s.top.range.startLine s.top.range.endLine) ∧
      f.range.Within filename 1 (1 + source.toList.count '\n') := by
  obtain ⟨_, harranged⟩ := Document.arranged_of_parse h
  have hwalk : ∀ b ∈ Block.walkAll d.blocks, ∀ x ∈ b.walk, x.Encloses := fun b hb x hx =>
    (harranged.walk x (Block.walk_subset_walkAll _ hb hx)).2.2
  have hblock : s.block ∈ Block.walkAll d.blocks := block_mem_walkAll hs
  obtain ⟨htop, hreach⟩ := top_mem hs
  have htop' : s.top ∈ Block.walkAll d.blocks := Block.mem_walkAll htop
  -- the check reports near the block, which lies in the top-level block, which lies in the file
  have hreports : c.Reports s.block f := Check.precise_builtins c hc s f (Check.kept_of_mem_builtins hc s ▸ hf)
  have hnear := Block.within_of_mem_nearRanges (hwalk _ hblock) hreports.range
  have hinner := Block.within_of_mem_walk s.top (hwalk _ htop') hreach
  obtain ⟨hfile, -⟩ := harranged.walk _ hblock
  obtain ⟨hfile', -⟩ := harranged.walk _ htop'
  refine ⟨hreports.code, Block.mem_nearRanges_iff.1 hreports.range, ?_, ⟨htop, hreach, ?_⟩, hnear.trans hfile⟩
  · exact hfile.1 ▸ hnear
  · exact hfile'.1 ▸ hnear.trans hinner

/-- A password in a child of a resource, behind a heredoc: the finding is about the child and points to the line of the
attribute, inside of the resource. -/
theorem points_into_block_child :
    ∃ (source : String) (d : Document) (s : Site) (f : Finding),
      source = "resource \"x\" \"y\" \x7b\n  a = <<E\nE\n  login \x7b\n    password = \"p\"\n  \x7d\n\x7d\n" ∧
      (Document.parse "a.tf" source).outcome = .ok d ∧ Check.sensitiveAttribute ∈ builtins ∧ s ∈ sites d.blocks ∧
      f ∈ (Check.sensitiveAttribute.apply s).found ∧ f.range.startLine = 5 ∧ s.block.kind = "login" ∧
      s.top ∈ d.blocks ∧ f.range.Within "a.tf" s.top.range.startLine s.top.range.endLine := by
  let found (s : Site) : Bool := s.block.kind == "login" &&
    (Check.sensitiveAttribute.apply s).found.any fun f => f.range.startLine == 5
  obtain ⟨source, hsource⟩ : ∃ source : String,
      source = "resource \"x\" \"y\" \x7b\n  a = <<E\nE\n  login \x7b\n    password = \"p\"\n  \x7d\n\x7d\n" := ⟨_, rfl⟩
  obtain ⟨w, d, ho, hd⟩ := Logged.ok_of_map (o := Document.parse "a.tf" source)
    (g := fun _ d => (sites d.blocks).any found) (b := true) (by rw [hsource]; decide +kernel)
  have hparse := congrArg Logged.outcome ho
  obtain ⟨s, hs, hfound⟩ := List.any_eq_true.1 hd
  obtain ⟨hkind, hany⟩ := Bool.and_eq_true_iff.1 hfound
  obtain ⟨f, hf, hline⟩ := List.any_eq_true.1 hany
  have hc : Check.sensitiveAttribute ∈ builtins := by simp [builtins]
  obtain ⟨-, -, -, ⟨htop, -, hwithin⟩, -⟩ := points_into_block hparse hc hs hf
  exact ⟨source, d, s, f, hsource, hparse, hc, hs, hf, eq_of_beq hline, eq_of_beq hkind, htop, hwithin⟩

end InfraAudit
