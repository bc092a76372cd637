import InfraAudit.Proofs.Hcl.Hiding
import InfraAudit.Proofs.Scan.Grouping
import Mathlib.Data.List.Flatten

/-!
# InfraAudit.Proofs.Check.Caution — what is not known makes no finding

* `Check.Cautious`: at a vaguer place the check finds nothing that it did not find before.
* `cautious_builtins`: all built-in checks are cautious, family by family.
* `scan_sublist_of_hides`: hiding a value leaves a sublist of the findings.
-/

namespace InfraAudit

open InfraAudit.Hcl InfraAudit.Text

/-- At a vaguer place the check finds nothing that it did not find before. -/
def Check.Cautious (c : Check) : Prop :=
  ∀ s s' : Site, s.Vaguer s' → (c.apply s').kept.Sublist (c.apply s).kept

namespace Check

/-! ### Lists of findings -/

section Lists

variable {α : Type}

theorem flatMap_sublist_of_forall₂ {β : Type} {R : α → α → Prop} {l l' : List α} {f f' : α → List β}
    (h : List.Forall₂ R l l') (hf : ∀ a a', R a a' → (f' a').Sublist (f a)) :
    (l'.flatMap f').Sublist (l.flatMap f) := by
  induction h with
  | nil => exact .slnil
  | cons ha _ ih => exact (hf _ _ ha).append ih

theorem any_of_forall₂ {R : α → α → Prop} {l l' : List α} {q : α → Bool} (h : List.Forall₂ R l l')
    (hq : ∀ a a', R a a' → q a = true → q a' = true) (hl : l.any q = true) : l'.any q = true := by
  induction h with
  | nil => exact hl
  | cons ha _ ih =>
    rw [List.any_cons, Bool.or_eq_true] at hl ⊢
    exact hl.imp (hq _ _ ha) ih

theorem filterMap_sublist_of_forall {β : Type} {f f' : α → Option β} (l : List α)
    (h : ∀ a, f' a = f a ∨ f' a = none) : (l.filterMap f').Sublist (l.filterMap f) := by
  induction l with
  | nil => exact .slnil
  | cons a l ih =>
    rw [List.filterMap_cons, List.filterMap_cons]
    rcases h a with ha | ha
    · rw [ha]
      cases f a with
      | none => exact ih
      | some x => exact ih.cons_cons x
    · rw [ha]
      cases f a with
      | none => exact ih
      | some x => exact ih.cons x

theorem ite_sublist {c c' : Prop} [Decidable c] [Decidable c'] {l l' : List α} (hc : c' → c) (hl : l'.Sublist l) :
    (if c' then l' else []).Sublist (if c then l else []) := by
  by_cases h : c'
  · rwa [if_pos h, if_pos (hc h)]
  · rw [if_neg h]
    exact List.nil_sublist _

theorem ite_nil_sublist {c c' : Prop} [Decidable c] [Decidable c'] (l : List α) (hc : c → c') :
    (if c' then [] else l).Sublist (if c then [] else l) := by
  by_cases h : c
  · rw [if_pos h, if_pos (hc h)]
  · rw [if_neg h]
    split
    · exact List.nil_sublist _
    · exact List.Sublist.refl _

end Lists

/-! ### Reading attributes that may have lost their values -/

section Attributes

variable {b b' : Block} {α : Type}

theorem string?_hide (a : Attribute) : a.hide.value.string? = none := rfl

theorem firstText?_hide (a : Attribute) (q : String → Bool) : firstText? a.hide q = none := rfl

theorem isKnown_hide (a : Attribute) (x : Bool) : isKnown a.hide x = false := rfl

theorem equals_hide (a : Attribute) (x : Literal) : a.hide.value.equals x = false := rfl

theorem isHardCoded_hide (a : Attribute) : isHardCoded a.hide = false := rfl

theorem isWord_hide (a : Attribute) (word : String) : isWord a.hide word = false := rfl

/-- What is read from an attribute is as before or nothing. -/
theorem bind_attribute {f : Attribute → Option α} (h : b.Vaguer b') (name : String)
    (hf : ∀ a : Attribute, f a.hide = none) :
    (b'.attribute? name).bind f = (b.attribute? name).bind f ∨ (b'.attribute? name).bind f = none := by
  obtain ⟨-, h2⟩ | ⟨a, h1, h2 | h2⟩ := h.attribute? name
  · exact .inr (by rw [h2, Option.bind_none])
  · exact .inl (by rw [h1, h2])
  · exact .inr (by rw [h2, Option.bind_some, hf])

theorem toList_bind_attribute_sublist {f : Attribute → Option α} (h : b.Vaguer b') (name : String)
    (hf : ∀ a : Attribute, f a.hide = none) :
    ((b'.attribute? name).bind f).toList.Sublist ((b.attribute? name).bind f).toList := by
  rcases bind_attribute h name hf with he | he
  · rw [he]
  · rw [he]
    exact List.nil_sublist _

theorem flatMap_attribute_sublist {f : Attribute → List α} (h : b.Vaguer b') (name : String)
    (hf : ∀ a : Attribute, f a.hide = []) :
    ((b'.attribute? name).toList.flatMap f).Sublist ((b.attribute? name).toList.flatMap f) := by
  obtain ⟨h1, h2⟩ | ⟨a, h1, h2 | h2⟩ := h.attribute? name
  · rw [h1, h2]
  · rw [h1, h2]
  · simp [h1, h2, hf]

/-- A condition that an attribute without a value does not satisfy held before. -/
theorem any_attribute {q : Attribute → Bool} (h : b.Vaguer b') (name : String)
    (hq : ∀ a : Attribute, q a.hide = false) (hb : (b'.attribute? name).any q = true) :
    (b.attribute? name).any q = true := by
  obtain ⟨h1, h2⟩ | ⟨a, h1, h2 | h2⟩ := h.attribute? name <;> simp_all

theorem all_attribute {q : Attribute → Bool} (h : b.Vaguer b') (name : String)
    (hq : ∀ a : Attribute, q a.hide = false) (hb : (b'.attribute? name).all q = true) :
    (b.attribute? name).all q = true := by
  obtain ⟨h1, h2⟩ | ⟨a, h1, h2 | h2⟩ := h.attribute? name <;> simp_all

/-- A condition that an attribute without a value satisfies holds as well. -/
theorem any_attribute_of {q : Attribute → Bool} (h : b.Vaguer b') (name : String)
    (hq : ∀ a : Attribute, q a.hide = true) (hb : (b.attribute? name).any q = true) :
    (b'.attribute? name).any q = true := by
  obtain ⟨h1, h2⟩ | ⟨a, h1, h2 | h2⟩ := h.attribute? name <;> simp_all

theorem onBlock_vaguer (h : b.Vaguer b') (p : Profile) (description note : String) :
    p.onBlock b' description note = p.onBlock b description note := by
  rw [Profile.onBlock, Profile.onBlock, h.range]

theorem publicCidrs_sublist (h : b.Vaguer b') : (publicCidrs b').Sublist (publicCidrs b) :=
  filterMap_sublist_of_forall _ fun name => bind_attribute h name fun a => by rw [firstText?_hide]; rfl

theorem filter_sublist_of_vaguer {q : Attribute → Bool} {as as' : List Attribute}
    (h : List.Forall₂ Attribute.Vaguer as as') (hq : ∀ a : Attribute, q a.hide = false) :
    (as'.filter q).Sublist (as.filter q) := by
  induction h with
  | nil => exact .slnil
  | @cons a a' as as' ha _ ih =>
    rw [List.filter_cons, List.filter_cons]
    rcases ha with rfl | rfl
    · split
      · exact ih.cons_cons _
      · exact ih
    · rw [hq, if_neg Bool.false_ne_true]
      split
      · exact ih.cons _
      · exact ih

theorem credentials_sublist (h : b.Vaguer b') : (credentials b').Sublist (credentials b) :=
  filter_sublist_of_vaguer h.attributes fun a => by rw [isHardCoded_hide, Bool.and_false]

/-- A listener redirects if it did. -/
theorem redirects_of_vaguer (hc : List.Forall₂ Block.Vaguer b.children b'.children) (h : redirects b = true) :
    redirects b' = true :=
  any_of_forall₂ (blocks_of_forall₂ hc "default_action")
    (fun _ _ ha => any_attribute_of ha "type" fun a => by rw [string?_hide]; rfl) h

end Attributes

/-! ### Checks of resources -/

section Resources

variable {p : Profile} {types : List String}

theorem cautious_ofFindings {inspect : Site → List Finding}
    (h : ∀ s s' : Site, s.Vaguer s' → (inspect s').Sublist (inspect s)) : (ofFindings p inspect).Cautious := by
  intro s s' hs
  simp only [ofFindings, Verdict.kept, Option.isNone_none, ite_true]
  exact h s s' hs

theorem cautious_ofResource {inspect : Block → List Finding}
    (h : ∀ b b' : Block, b.Vaguer b' → List.Forall₂ Block.Vaguer b.children b'.children →
      (inspect b').Sublist (inspect b)) : (ofResource p types inspect).Cautious := by
  refine cautious_ofFindings fun s s' hs => ?_
  rw [hs.block.isResource]
  split
  · exact h _ _ hs.block hs.children
  · exact .slnil

/-- Checks of one attribute that must be known. -/
theorem cautious_of_attribute {name : String} {f : Block → Attribute → List Finding}
    (hf : ∀ b b' : Block, b.Vaguer b' → f b' = f b) (hide : ∀ (b : Block) (a : Attribute), f b a.hide = []) :
    (ofResource p types fun b => (b.attribute? name).toList.flatMap (f b)).Cautious := by
  refine cautious_ofResource fun b b' h _ => ?_
  rw [hf b b' h]
  exact flatMap_attribute_sublist h name (hide b)

theorem cautious_bucketPublicAcl : bucketPublicAcl.Cautious := by
  unfold bucketPublicAcl
  exact cautious_of_attribute (fun b b' h => by rw [h.fullName]) fun b a => by simp [string?_hide]

theorem cautious_outdatedSslPolicy : outdatedSslPolicy.Cautious := by
  unfold outdatedSslPolicy
  exact cautious_of_attribute (fun b b' h => by rw [h.fullName]) fun b a => by simp [string?_hide]

theorem cautious_forbiddenTrue (name complaint : String) : (forbiddenTrue p types name complaint).Cautious :=
  cautious_of_attribute (fun b b' h => by rw [h.fullName]) fun b a => by simp [isKnown_hide]

theorem cautious_unencryptedDataLake : unencryptedDataLake.Cautious := by
  unfold unencryptedDataLake
  exact cautious_of_attribute (fun b b' h => by rw [h.fullName]) fun b a => by simp [equals_hide]

theorem cautious_storageHttpsOnly : storageHttpsOnly.Cautious := by
  unfold storageHttpsOnly
  exact cautious_of_attribute (fun b b' h => by rw [h.fullName]) fun b a => by simp [isKnown_hide]

theorem cautious_publicBlobAccess : publicBlobAccess.Cautious := by
  unfold publicBlobAccess
  refine cautious_ofResource fun b b' h _ => ?_
  simp only [h.typeLabel?, h.fullName, onBlock_vaguer h]
  split
  · exact flatMap_attribute_sublist h _ fun a => by simp [isKnown_hide]
  · exact flatMap_attribute_sublist h _ fun a => by simp [isWord_hide]

theorem cautious_unencryptedManagedDisk : unencryptedManagedDisk.Cautious := by
  unfold unencryptedManagedDisk
  refine cautious_ofResource fun b b' h hc => ?_
  rw [h.fullName]
  obtain ⟨h1, h2⟩ | ⟨c, c', h1, h2, hcc⟩ := block?_of_forall₂ hc "encryption_settings"
  · rw [h1, h2]
  · rw [h1, h2]
    exact flatMap_attribute_sublist hcc "enabled" fun a => by simp [isKnown_hide]

/-! ### Checks that miss something -/

/-- Checks of a block that must be there. -/
theorem cautious_of_block? {kind : String} {f : Block → Finding} (hf : ∀ b b' : Block, b.Vaguer b' → f b' = f b) :
    (ofResource p types fun b => if (b.block? kind).isNone then [f b] else []).Cautious := by
  refine cautious_ofResource fun b b' h hc => ?_
  rw [hf b b' h, ← Option.not_isSome, ← Option.not_isSome, isSome_block?_of_forall₂ hc]

theorem cautious_bucketLogging : bucketLogging.Cautious := by
  unfold bucketLogging
  exact cautious_of_block? fun b b' h => by rw [h.fullName, onBlock_vaguer h]

theorem cautious_unencryptedBucket : unencryptedBucket.Cautious := by
  unfold unencryptedBucket
  exact cautious_of_block? fun b b' h => by rw [h.fullName, onBlock_vaguer h]

theorem cautious_unencryptedComputeDisk : unencryptedComputeDisk.Cautious := by
  unfold unencryptedComputeDisk
  exact cautious_of_block? fun b b' h => by rw [h.fullName, onBlock_vaguer h]

theorem cautious_classicSecurityGroup : classicSecurityGroup.Cautious := by
  unfold classicSecurityGroup
  refine cautious_ofResource fun b b' h _ => ?_
  rw [h.fullName, onBlock_vaguer h]

/-- Checks of an attribute that must be there. -/
theorem cautious_of_required {name : String} {g : Block → List Finding} {f : Block → Attribute → List Finding}
    (hg : ∀ b b' : Block, b.Vaguer b' → List.Forall₂ Block.Vaguer b.children b'.children → (g b').Sublist (g b))
    (hf : ∀ b b' : Block, b.Vaguer b' → List.Forall₂ Block.Vaguer b.children b'.children →
      ∀ a, (f b' a).Sublist (f b a))
    (hide : ∀ (b : Block) (a : Attribute), f b a.hide = []) :
    (ofResource p types fun b =>
      match b.attribute? name with
      | none => g b
      | some a => f b a).Cautious := by
  refine cautious_ofResource fun b b' h hc => ?_
  obtain ⟨h1, h2⟩ | ⟨a, h1, h2 | h2⟩ := h.attribute? name
  · simp only [h1, h2]
    exact hg b b' h hc
  · simp only [h1, h2]
    exact hf b b' h hc a
  · simp only [h1, h2, hide]
    exact List.nil_sublist _

theorem cautious_unencryptedWithoutKey {noun : String} {otherwise : Block → Bool}
    (ho : ∀ b b' : Block, b.Vaguer b' → otherwise b = true → otherwise b' = true) :
    (unencryptedWithoutKey p types noun otherwise).Cautious := by
  unfold unencryptedWithoutKey
  refine cautious_of_required (fun b b' h _ => ?_) (fun b b' h _ a => by rw [h.fullName]) fun b a => by
    simp [string?_hide]
  rw [h.fullName, onBlock_vaguer h]
  exact ite_nil_sublist _ (ho b b' h)

theorem cautious_unencryptedQueue : unencryptedQueue.Cautious :=
  cautious_unencryptedWithoutKey fun b b' h => any_attribute_of h _ fun a => by rw [isKnown_hide]; rfl

theorem cautious_unencryptedTopic : unencryptedTopic.Cautious :=
  cautious_unencryptedWithoutKey fun _ _ _ => id

theorem cautious_uniformBucketAccess : uniformBucketAccess.Cautious := by
  unfold uniformBucketAccess
  refine cautious_of_required (fun b b' h _ => ?_) (fun b b' h _ a => by rw [h.fullName]) fun b a => by
    simp [isKnown_hide]
  rw [h.fullName, onBlock_vaguer h]
  exact ite_nil_sublist _ (any_attribute_of h _ fun a => by rw [isKnown_hide]; rfl)

theorem cautious_missingDescription : missingDescription.Cautious := by
  unfold missingDescription
  exact cautious_of_required (fun b b' h _ => by rw [h.fullName, onBlock_vaguer h])
    (fun b b' h _ a => by rw [h.fullName]) fun b a => by simp [string?_hide]

theorem cautious_publicLoadBalancer : publicLoadBalancer.Cautious := by
  unfold publicLoadBalancer
  exact cautious_of_required (fun b b' h _ => by rw [h.fullName, onBlock_vaguer h])
    (fun b b' h _ a => by rw [h.fullName]) fun b a => by simp [isKnown_hide]

theorem cautious_plainHttpListener : plainHttpListener.Cautious := by
  unfold plainHttpListener
  refine cautious_of_required (fun b b' h hc => ?_) (fun b b' h hc a => ?_) fun b a => by simp [string?_hide]
  · rw [h.fullName, onBlock_vaguer h]
    exact ite_nil_sublist _ (redirects_of_vaguer hc)
  · rw [h.fullName]
    refine ite_sublist (fun hb => ?_) (List.Sublist.refl _)
    simp only [Bool.and_eq_true, Bool.not_eq_true'] at hb ⊢
    refine ⟨hb.1, ?_⟩
    cases hr : redirects b with
    | false => rfl
    | true => simp [redirects_of_vaguer hc hr] at hb

theorem cautious_unencryptedBlockDevice : unencryptedBlockDevice.Cautious := by
  unfold unencryptedBlockDevice
  refine cautious_ofResource fun b b' h hc => ?_
  simp only [h.fullName, onBlock_vaguer h, ← Option.not_isSome, isSome_block?_of_forall₂ hc]
  split
  · exact List.Sublist.refl _
  refine List.Sublist.flatMap_right _ fun kind _ => ?_
  refine flatMap_sublist_of_forall₂ (blocks_of_forall₂ hc kind.1) fun c c' hcc => ?_
  obtain ⟨h1, h2⟩ | ⟨a, h1, h2 | h2⟩ := hcc.attribute? "encrypted"
  · simp only [h1, h2, onBlock_vaguer hcc]
    exact List.Sublist.refl _
  · simp only [h1, h2]
    exact List.Sublist.refl _
  · simp [h1, h2, isKnown_hide]

/-! ### Checks of sources and destinations -/

theorem cautious_openRule (direction : String) : (openRule p direction).Cautious := by
  unfold openRule
  refine cautious_ofResource fun b b' h _ => ?_
  rw [h.fullName]
  exact ite_sublist (any_attribute h _ fun a => by rw [equals_hide]) ((publicCidrs_sublist h).map _)

theorem cautious_openInlineRule (direction : String) : (openInlineRule p direction).Cautious := by
  unfold openInlineRule
  refine cautious_ofResource fun b b' h hc => ?_
  rw [h.fullName]
  exact flatMap_sublist_of_forall₂ (blocks_of_forall₂ hc direction) fun c c' hcc => (publicCidrs_sublist hcc).map _

theorem cautious_openInboundRule : openInboundRule.Cautious := by
  unfold openInboundRule
  refine cautious_ofResource fun b b' h _ => ?_
  rw [h.fullName]
  refine ite_sublist (fun hb => ?_) (filterMap_sublist_of_forall _ fun name => bind_attribute h name fun a => ?_)
  · rw [Bool.and_eq_true] at hb ⊢
    exact ⟨any_attribute h _ (fun a => isWord_hide a _) hb.1, any_attribute h _ (fun a => isWord_hide a _) hb.2⟩
  · rw [firstText?_hide]
    rfl

theorem cautious_openIngressFirewall : openIngressFirewall.Cautious := by
  unfold openIngressFirewall
  refine cautious_ofResource fun b b' h hc => ?_
  rw [h.fullName, isSome_block?_of_forall₂ hc]
  refine ite_sublist (fun hb => ?_) (toList_bind_attribute_sublist h _ fun a => by rw [firstText?_hide]; rfl)
  rw [Bool.and_eq_true] at hb ⊢
  exact hb.imp_left (all_attribute h _ fun a => by rw [equals_hide])

theorem cautious_publicBucketGrant : publicBucketGrant.Cautious := by
  unfold publicBucketGrant
  refine cautious_ofResource fun b b' h _ => ?_
  simp only [h.fullName, h.typeLabel?]
  exact toList_bind_attribute_sublist h _ fun a => by rw [firstText?_hide]; rfl

end Resources

/-! ### Checks of credentials -/

theorem cautious_sensitiveVariableDefault : sensitiveVariableDefault.Cautious := by
  unfold sensitiveVariableDefault
  refine cautious_ofFindings fun s s' hs => ?_
  have h := hs.block
  simp only [h.kind, h.typeLabel?, h.fullName]
  refine ite_sublist id (List.Sublist.map _ ?_)
  obtain ⟨h1, h2⟩ | ⟨a, h1, h2 | h2⟩ := h.attribute? "default"
  · rw [h1, h2]
  · rw [h1, h2]
  · rw [h2, Option.filter_some, isHardCoded_hide]
    exact List.nil_sublist _

theorem cautious_sensitiveLocal : sensitiveLocal.Cautious := by
  unfold sensitiveLocal
  refine cautious_ofFindings fun s s' hs => ?_
  rw [hs.block.kind]
  exact ite_sublist id ((credentials_sublist hs.block).map _)

theorem cautious_sensitiveAttribute : sensitiveAttribute.Cautious := by
  unfold sensitiveAttribute
  refine cautious_ofFindings fun s s' hs => ?_
  have hkinds : (s'.block :: s'.ancestors).map Block.kind = (s.block :: s.ancestors).map Block.kind := by
    rw [List.map_cons, List.map_cons, hs.block.kind, hs.kinds]
  have hany : ((s'.block :: s'.ancestors).any fun b => declarationKinds.contains b.kind) =
      (s.block :: s.ancestors).any fun b => declarationKinds.contains b.kind := by
    have h := congrArg (·.any declarationKinds.contains) hkinds
    simp only [List.any_map] at h
    exact h
  rw [hany, hs.block.fullName]
  split
  · exact .slnil
  · exact (credentials_sublist hs.block).map _

/-- No built-in check finds more where less is known. -/
theorem cautious_builtins : ∀ c ∈ builtins, c.Cautious := by
  simp only [builtins, List.forall_mem_cons]
  exact ⟨cautious_bucketPublicAcl, cautious_bucketLogging, cautious_classicSecurityGroup, cautious_plainHttpListener,
    cautious_publicLoadBalancer, cautious_openRule _, cautious_openRule _, cautious_openInlineRule _,
    cautious_openInlineRule _, cautious_outdatedSslPolicy, cautious_forbiddenTrue _ _, cautious_forbiddenTrue _ _,
    cautious_unencryptedBlockDevice, cautious_unencryptedQueue, cautious_unencryptedTopic,
    cautious_unencryptedBucket, cautious_missingDescription, cautious_unencryptedManagedDisk,
    cautious_openInboundRule, cautious_unencryptedDataLake, cautious_publicBlobAccess, cautious_storageHttpsOnly,
    cautious_unencryptedComputeDisk, cautious_uniformBucketAccess, cautious_openIngressFirewall,
    cautious_publicBucketGrant, cautious_sensitiveVariableDefault, cautious_sensitiveLocal,
    cautious_sensitiveAttribute, by simp⟩

end Check

/-! ### Whole scans -/

namespace Scan

theorem findings_sublist {places places' : List Site} {c : Check} (h : List.Forall₂ Site.Vaguer places places')
    (hc : c.Cautious) : (findings places' c).Sublist (findings places c) :=
  Check.flatMap_sublist_of_forall₂ h hc

end Scan

/-- Hiding the value of an attribute leaves a sublist of the findings, whichever built-in checks run and whatever is
suppressed. -/
theorem scan_sublist_of_hides {r : Registry} {forest forest' : List Block} (ignores : Option Ignore.Index)
    (hr : ∀ c ∈ r.checks, c ∈ builtins) (h : Hides forest forest') :
    (scan r ignores forest').Sublist (scan r ignores forest) := by
  have hfound : ((Scan.tallies r.checks (sites forest')).flatMap (·.found)).Sublist
      ((Scan.tallies r.checks (sites forest)).flatMap (·.found)) := by
    rw [Scan.tallies_eq, Scan.tallies_eq, List.flatMap_map, List.flatMap_map]
    exact List.Sublist.flatMap_right _ fun c hc =>
      Scan.findings_sublist (sites_vaguer h) (Check.cautious_builtins c (hr c hc))
  cases ignores with
  | none => exact hfound
  | some ix => exact hfound.filter _

/-- A group whose inner rule is open to everybody, and the same group with the addresses hidden. -/
theorem scan_sublist_of_hides_ingress :
    ∃ forest forest' : List Block, Hides forest forest' ∧
      ((scan (.ofSelection ⟨[], none⟩) none forest).map (·.code) = ["AWS008", "AWS018"]) ∧
      ((scan (.ofSelection ⟨[], none⟩) none forest').map (·.code) = ["AWS018"]) ∧
      (scan (.ofSelection ⟨[], none⟩) none forest').Sublist (scan (.ofSelection ⟨[], none⟩) none forest) := by
  have h : Hides
      [⟨"resource", ["aws_security_group", "g"], ⟨"main.tf", 1, 5, by decide, by decide, by decide⟩, [],
        [⟨"ingress", [], ⟨"main.tf", 2, 4, by decide, by decide, by decide⟩,
          [⟨"cidr_blocks", .list [.string "0.0.0.0/0"], ⟨"main.tf", 3, 3, by decide, by decide, by decide⟩⟩], []⟩]⟩]
      _ := @Hides.intro [] [] _ _ (@Block.Hides.inside _ _ _ _ [] [] _ _ (@Block.Hides.here _ _ _ [] [] _ _))
  refine ⟨_, _, h, by decide +kernel, by decide +kernel, scan_sublist_of_hides none ?_ h⟩
  exact fun c hc => (List.mem_filter.1 hc).1

end InfraAudit
