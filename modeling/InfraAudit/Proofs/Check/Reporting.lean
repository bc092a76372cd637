import InfraAudit.Check.Registry
import InfraAudit.Proofs.Hcl.Traversal

/-!
# InfraAudit.Proofs.Check.Reporting — what a finding of a built-in check says

* `Block.ownRanges`, `nearRanges`, `ranges`: the ranges of a block with its attributes, of these and the children, and
  of everything in the block.
* `Profile.Reports`: a finding with the code and the severity of its check, near the block.
* `precise_builtins`: every finding of a built-in check is of that kind, family by family.
* `Check.Local`: a check whose findings stay in the block they are about.
-/

namespace InfraAudit

open InfraAudit.Hcl InfraAudit.Text

namespace Hcl.Block

variable {b c : Block} {a : Attribute}

/-- The ranges of the block and of its attributes. -/
def ownRanges (b : Block) : List SourceRange :=
  b.range :: b.attributes.map (·.range)

/-- The ranges of the block, its attributes, its children and their attributes. -/
def nearRanges (b : Block) : List SourceRange :=
  b.ownRanges ++ b.children.flatMap ownRanges

/-- The ranges of the block and of all blocks inside of it, with their attributes. -/
def ranges (b : Block) : List SourceRange :=
  b.walk.flatMap ownRanges

theorem range_mem_ownRanges : b.range ∈ b.ownRanges :=
  List.mem_cons_self

theorem mem_ownRanges (ha : a ∈ b.attributes) : a.range ∈ b.ownRanges :=
  List.mem_cons_of_mem _ (List.mem_map_of_mem ha)

theorem mem_nearRanges {r : SourceRange} (h : r ∈ b.ownRanges) : r ∈ b.nearRanges :=
  List.mem_append_left _ h

theorem mem_nearRanges_of_child {r : SourceRange} (hc : c ∈ b.children) (h : r ∈ c.ownRanges) : r ∈ b.nearRanges :=
  List.mem_append_right _ (List.mem_flatMap_of_mem hc h)

theorem nearRanges_subset_ranges : b.nearRanges ⊆ b.ranges := by
  intro r hr
  rw [nearRanges, List.mem_append, List.mem_flatMap] at hr
  rcases hr with hr | ⟨c, hc, hr⟩
  · exact List.mem_flatMap_of_mem (mem_walk_self b) hr
  · exact List.mem_flatMap_of_mem (mem_walk_of_mem_children hc) hr

theorem mem_of_attribute? {name : String} (h : b.attribute? name = some a) : a ∈ b.attributes :=
  List.mem_of_find?_eq_some h

theorem mem_of_block? {kind : String} (h : b.block? kind = some c) : c ∈ b.children :=
  List.mem_of_find?_eq_some h

theorem mem_of_blocks {kind : String} (h : c ∈ b.blocks kind) : c ∈ b.children :=
  (List.mem_filter.1 h).1

end Hcl.Block

/-- A finding of the check about the block: with the code and the severity of the check, on the block, a child or an
attribute of one of these. -/
structure Profile.Reports (p : Profile) (b : Block) (f : Finding) : Prop where
  code : f.code = p.code
  severity : f.severity = p.severity
  range : f.range ∈ b.nearRanges

/-- All findings are of the check, about the block. -/
def Profile.ReportsAll (p : Profile) (b : Block) (fs : List Finding) : Prop :=
  ∀ f ∈ fs, p.Reports b f

namespace Check

/-- What the check finds at a place is about the block there. -/
def Precise (c : Check) : Prop :=
  ∀ s : Site, c.ReportsAll s.block (c.apply s).kept

/-- What the check finds at a place is in the block there. -/
def Local (c : Check) : Prop :=
  ∀ s : Site, ∀ f ∈ (c.apply s).kept, f.range ∈ s.block.ranges

theorem Precise.local {c : Check} (h : c.Precise) : c.Local :=
  fun s f hf => Block.nearRanges_subset_ranges (h s f hf).range

/-! ### Lists of findings -/

section Lists

variable {p : Profile} {b c : Block} {fs : List Finding}

theorem reportsAll_nil : p.ReportsAll b [] := by
  intro f hf
  cases hf

theorem reportsAll_onBlock (description note : String) : p.ReportsAll b [p.onBlock b description note] := by
  intro f hf
  obtain rfl := List.mem_singleton.1 hf
  exact ⟨rfl, rfl, Block.mem_nearRanges Block.range_mem_ownRanges⟩

theorem reports_onAttribute {a : Attribute} (ha : a ∈ b.attributes) (description note : String) :
    p.Reports b (p.onAttribute a description note) :=
  ⟨rfl, rfl, Block.mem_nearRanges (Block.mem_ownRanges ha)⟩

theorem reportsAll_onValue {a : Attribute} (ha : a ∈ b.attributes) (description : String) :
    p.ReportsAll b [p.onValue a description] := by
  intro f hf
  obtain rfl := List.mem_singleton.1 hf
  exact reports_onAttribute ha _ _

theorem reportsAll_ite {q : Prop} [Decidable q] {gs : List Finding} (hf : p.ReportsAll b fs)
    (hg : p.ReportsAll b gs) : p.ReportsAll b (if q then fs else gs) := by
  split
  · exact hf
  · exact hg

theorem reportsAll_flatMap {α : Type} {l : List α} {g : α → List Finding} (h : ∀ x ∈ l, p.ReportsAll b (g x)) :
    p.ReportsAll b (l.flatMap g) := by
  intro f hf
  obtain ⟨x, hx, hf⟩ := List.mem_flatMap.1 hf
  exact h x hx f hf

theorem reportsAll_map {α : Type} {l : List α} {g : α → Finding} (h : ∀ x ∈ l, p.Reports b (g x)) :
    p.ReportsAll b (l.map g) := by
  intro f hf
  obtain ⟨x, hx, rfl⟩ := List.mem_map.1 hf
  exact h x hx

/-- Findings about an attribute, if there is one of the name. -/
theorem reportsAll_attribute {name : String} {g : Attribute → List Finding}
    (h : ∀ a ∈ b.attributes, p.ReportsAll b (g a)) : p.ReportsAll b ((b.attribute? name).toList.flatMap g) :=
  reportsAll_flatMap fun a ha => h a (Block.mem_of_attribute? (Option.mem_toList.1 ha))

/-- A finding about an attribute and a text in it. -/
theorem reportsAll_text {name : String} {q : String → Bool} (description note : String → String) :
    p.ReportsAll b ((b.attribute? name).bind fun a => (firstText? a q).map fun t =>
      p.onAttribute a (description t) (note t)).toList := by
  intro f hf
  obtain ⟨a, ha, hf⟩ := Option.bind_eq_some_iff.1 (Option.mem_toList.1 hf)
  obtain ⟨t, -, rfl⟩ := Option.map_eq_some_iff.1 hf
  exact reports_onAttribute (Block.mem_of_attribute? ha) _ _

/-- Findings about an attribute, or about its absence. -/
theorem reportsAll_required {name : String} {g : Attribute → List Finding} (hn : p.ReportsAll b fs)
    (h : ∀ a ∈ b.attributes, p.ReportsAll b (g a)) :
    p.ReportsAll b (match b.attribute? name with
      | none => fs
      | some a => g a) := by
  split
  · exact hn
  · next a ha => exact h a (Block.mem_of_attribute? ha)

/-- Findings about a child and its attributes are near the block. -/
theorem reportsAll_of_child (hc : c ∈ b.children) (h : ∀ f ∈ fs, ∃ r ∈ c.ownRanges, ∃ d n, f = p.finding r d n) :
    p.ReportsAll b fs := by
  intro f hf
  obtain ⟨r, hr, d, n, rfl⟩ := h f hf
  exact ⟨rfl, rfl, Block.mem_nearRanges_of_child hc hr⟩

theorem mem_attributes_of_publicCidrs {a : Attribute} {cidr : String} (h : (a, cidr) ∈ publicCidrs b) :
    a ∈ b.attributes := by
  obtain ⟨name, -, h⟩ := List.mem_filterMap.1 h
  obtain ⟨a', ha, h⟩ := Option.bind_eq_some_iff.1 h
  obtain ⟨t, -, h⟩ := Option.bind_eq_some_iff.1 h
  cases h
  exact Block.mem_of_attribute? ha

end Lists

/-! ### Checks of resources -/

section Resources

variable {p : Profile} {types : List String}

theorem precise_ofFindings {inspect : Site → List Finding} (h : ∀ s, p.ReportsAll s.block (inspect s)) :
    (ofFindings p inspect).Precise :=
  h

theorem precise_ofResource {inspect : Block → List Finding} (h : ∀ b, p.ReportsAll b (inspect b)) :
    (ofResource p types inspect).Precise :=
  precise_ofFindings fun s => reportsAll_ite (h s.block) reportsAll_nil

/-- Checks of one attribute. -/
theorem precise_of_attribute {name : String} {q : Block → Attribute → Prop} [∀ b a, Decidable (q b a)]
    {description : Block → Attribute → String} :
    (ofResource p types fun b => (b.attribute? name).toList.flatMap fun a =>
      if q b a then [p.onValue a (description b a)] else []).Precise :=
  precise_ofResource fun _ => reportsAll_attribute fun _ ha => reportsAll_ite (reportsAll_onValue ha _) reportsAll_nil

theorem precise_forbiddenTrue (name complaint : String) : (forbiddenTrue p types name complaint).Precise :=
  precise_of_attribute

theorem precise_publicBlobAccess : publicBlobAccess.Precise := by
  unfold publicBlobAccess
  refine precise_ofResource fun b => reportsAll_ite ?_ ?_
  · exact reportsAll_attribute fun a ha => reportsAll_ite (reportsAll_onBlock _ _) reportsAll_nil
  · exact reportsAll_attribute fun a ha => reportsAll_ite (reportsAll_onValue ha _) reportsAll_nil

theorem precise_unencryptedManagedDisk : unencryptedManagedDisk.Precise := by
  unfold unencryptedManagedDisk
  refine precise_ofResource fun b => reportsAll_flatMap fun a ha => reportsAll_ite ?_ reportsAll_nil
  obtain ⟨c, hc, ha⟩ := Option.bind_eq_some_iff.1 (Option.mem_toList.1 ha)
  refine reportsAll_of_child (Block.mem_of_block? hc) fun f hf => ?_
  exact ⟨_, Block.mem_ownRanges (Block.mem_of_attribute? ha), _, _, List.mem_singleton.1 hf⟩

/-- Checks of a block that must be there. -/
theorem precise_of_block? {kind : String} {description note : Block → String} :
    (ofResource p types fun b =>
      if (b.block? kind).isNone then [p.onBlock b (description b) (note b)] else []).Precise :=
  precise_ofResource fun _ => reportsAll_ite (reportsAll_onBlock _ _) reportsAll_nil

theorem precise_classicSecurityGroup : classicSecurityGroup.Precise :=
  precise_ofResource fun _ => reportsAll_onBlock _ _

/-- Checks of an attribute that must be there. -/
theorem precise_of_required {name : String} {missing : Block → List Finding} {q : Block → Attribute → Prop}
    [∀ b a, Decidable (q b a)] {description : Block → Attribute → String}
    (hm : ∀ b, p.ReportsAll b (missing b)) :
    (ofResource p types fun b =>
      match b.attribute? name with
      | none => missing b
      | some a => if q b a then [p.onValue a (description b a)] else []).Precise :=
  precise_ofResource fun b => reportsAll_required (hm b) fun _ ha =>
    reportsAll_ite (reportsAll_onValue ha _) reportsAll_nil

theorem precise_unencryptedWithoutKey (noun : String) (otherwise : Block → Bool) :
    (unencryptedWithoutKey p types noun otherwise).Precise :=
  precise_of_required fun _ => reportsAll_ite reportsAll_nil (reportsAll_onBlock _ _)

theorem precise_uniformBucketAccess : uniformBucketAccess.Precise :=
  precise_of_required fun _ => reportsAll_ite reportsAll_nil (reportsAll_onBlock _ _)

theorem precise_missingDescription : missingDescription.Precise :=
  precise_of_required fun _ => reportsAll_onBlock _ _

theorem precise_publicLoadBalancer : publicLoadBalancer.Precise :=
  precise_of_required fun _ => reportsAll_onBlock _ _

theorem precise_plainHttpListener : plainHttpListener.Precise :=
  precise_of_required fun _ => reportsAll_ite reportsAll_nil (reportsAll_onBlock _ _)

theorem precise_unencryptedBlockDevice : unencryptedBlockDevice.Precise := by
  unfold unencryptedBlockDevice
  refine precise_ofResource fun b => reportsAll_ite (reportsAll_onBlock _ _) ?_
  refine reportsAll_flatMap fun kind _ => reportsAll_flatMap fun device hd => ?_
  refine reportsAll_of_child (Block.mem_of_blocks hd) fun f hf => ?_
  split at hf
  · exact ⟨_, Block.range_mem_ownRanges, _, _, List.mem_singleton.1 hf⟩
  · next a ha =>
    split at hf
    · exact ⟨_, Block.mem_ownRanges (Block.mem_of_attribute? ha), _, _, List.mem_singleton.1 hf⟩
    · cases hf

/-! ### Checks of sources and destinations -/

theorem precise_openRule (direction : String) : (openRule p direction).Precise := by
  refine precise_ofResource fun b => reportsAll_ite (reportsAll_map fun x hx => ?_) reportsAll_nil
  exact reports_onAttribute (mem_attributes_of_publicCidrs hx) _ _

theorem precise_openInlineRule (direction : String) : (openInlineRule p direction).Precise := by
  refine precise_ofResource fun b => reportsAll_flatMap fun rule hr => ?_
  refine reportsAll_of_child (Block.mem_of_blocks hr) fun f hf => ?_
  obtain ⟨x, hx, rfl⟩ := List.mem_map.1 hf
  exact ⟨_, Block.mem_ownRanges (mem_attributes_of_publicCidrs hx), _, _, rfl⟩

theorem precise_openInboundRule : openInboundRule.Precise := by
  unfold openInboundRule
  refine precise_ofResource fun b => reportsAll_ite (fun f hf => ?_) reportsAll_nil
  obtain ⟨name, -, hf⟩ := List.mem_filterMap.1 hf
  obtain ⟨a, ha, hf⟩ := Option.bind_eq_some_iff.1 hf
  obtain ⟨source, -, hf⟩ := Option.bind_eq_some_iff.1 hf
  cases hf
  exact reports_onAttribute (Block.mem_of_attribute? ha) _ _

theorem precise_openIngressFirewall : openIngressFirewall.Precise :=
  precise_ofResource fun _ => reportsAll_ite (reportsAll_text _ _) reportsAll_nil

theorem precise_publicBucketGrant : publicBucketGrant.Precise :=
  precise_ofResource fun _ => reportsAll_text _ _

end Resources

/-! ### Checks of credentials -/

theorem mem_attributes_of_credentials {b : Block} {a : Attribute} (h : a ∈ credentials b) : a ∈ b.attributes :=
  (List.mem_filter.1 h).1

theorem precise_sensitiveVariableDefault : sensitiveVariableDefault.Precise := by
  unfold sensitiveVariableDefault
  refine precise_ofFindings fun s => reportsAll_ite (reportsAll_map fun a ha => ?_) reportsAll_nil
  have hd := (Option.filter_eq_some_iff.1 (Option.mem_toList.1 ha)).1
  exact reports_onAttribute (Block.mem_of_attribute? hd) _ _

theorem precise_sensitiveLocal : sensitiveLocal.Precise := by
  refine precise_ofFindings fun s => reportsAll_ite (reportsAll_map fun a ha => ?_) reportsAll_nil
  exact reports_onAttribute (mem_attributes_of_credentials ha) _ _

theorem precise_sensitiveAttribute : sensitiveAttribute.Precise := by
  refine precise_ofFindings fun s => reportsAll_ite reportsAll_nil (reportsAll_map fun a ha => ?_)
  exact reports_onAttribute (mem_attributes_of_credentials ha) _ _

/-- What a built-in check finds carries its code and its severity and is about the block. -/
theorem precise_builtins : ∀ c ∈ builtins, c.Precise := by
  simp only [builtins, List.forall_mem_cons]
  exact ⟨precise_of_attribute, precise_of_block?, precise_classicSecurityGroup, precise_plainHttpListener,
    precise_publicLoadBalancer, precise_openRule _, precise_openRule _, precise_openInlineRule _,
    precise_openInlineRule _, precise_of_attribute, precise_forbiddenTrue _ _, precise_forbiddenTrue _ _,
    precise_unencryptedBlockDevice, precise_unencryptedWithoutKey _ _, precise_unencryptedWithoutKey _ _,
    precise_of_block?, precise_missingDescription, precise_unencryptedManagedDisk, precise_openInboundRule,
    precise_of_attribute, precise_publicBlobAccess, precise_of_attribute, precise_of_block?,
    precise_uniformBucketAccess, precise_openIngressFirewall, precise_publicBucketGrant,
    precise_sensitiveVariableDefault, precise_sensitiveLocal, precise_sensitiveAttribute, by simp⟩

theorem local_builtins : ∀ c ∈ builtins, c.Local :=
  fun c hc => (precise_builtins c hc).local

end Check

end InfraAudit
