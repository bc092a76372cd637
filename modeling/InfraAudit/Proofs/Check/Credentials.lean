import InfraAudit.Proofs.Hcl.Inversion
import InfraAudit.Proofs.Scan.Grouping
import Mathlib.Data.List.Perm.Basic

/-!
# InfraAudit.Proofs.Check.Credentials — credentials are reported once

Two checks look for credentials in attributes: one in `locals` blocks, one in all other blocks outside of
declarations.

* `attributesOf`: the attributes of a forest with their places, in the order of the walk.
* `Exposed`: an attribute that gives a credential away; `exposure`: what is to be said about it.
* `findings_sensitiveLocal`, `findings_sensitiveAttribute`: each of the two checks reports its share of them.
* `scan_exposures`: together they report each of them once and nothing else.
-/

namespace InfraAudit.Check

open InfraAudit.Hcl

/-- The attributes of all blocks of a forest with their places: in the order of the walk, and in that of the block. -/
def attributesOf (forest : List Block) : List (Site × Attribute) :=
  (sites forest).flatMap fun s => s.block.attributes.map fun a => (s, a)

/-- Whether the attributes of the block at a place are looked at: the block declares local values, or neither it nor any
block around it is a declaration. -/
def Watched (s : Site) : Prop :=
  s.block.kind = "locals" ∨ ∀ b ∈ s.block :: s.ancestors, b.kind ∉ ["variable", "locals", "output", "terraform"]

instance : DecidablePred Watched :=
  fun s => inferInstanceAs (Decidable (s.block.kind = "locals" ∨
    ∀ b ∈ s.block :: s.ancestors, b.kind ∉ ["variable", "locals", "output", "terraform"]))

/-- Whether an attribute of the block at a place gives a credential away: its name is that of one, its value is a
literal text other than the empty one, and the place is looked at. -/
def Exposed (s : Site) (a : Attribute) : Prop :=
  isSensitiveName a.name = true ∧ (∃ text, a.value = .string text ∧ text ≠ "") ∧ Watched s

/-- The code of findings about credentials in the block at a place. -/
def exposureCode (s : Site) : String :=
  if s.block.kind = "locals" then "GEN002" else "GEN003"

/-- What is to be said about a credential in the block at a place. -/
def exposure (s : Site) (a : Attribute) : Finding :=
  if s.block.kind = "locals" then
    sensitiveLocal.onAttribute a (s!"Local 'local.{a.name}' includes a potentially sensitive value " ++
      "which is defined within the project.") ""
  else
    sensitiveAttribute.onAttribute a (s!"Block '{s.block.fullName}' includes a potentially sensitive attribute " ++
      s!"'{a.name}' which is defined within the project.") ""

section Attributes

variable {s : Site} {a : Attribute}

theorem isHardCoded_iff : isHardCoded a = true ↔ ∃ text, a.value = .string text ∧ text ≠ "" := by
  unfold isHardCoded
  cases a.value <;> simp [Value.string?]

instance : Decidable (Exposed s a) :=
  decidable_of_iff (isSensitiveName a.name = true ∧ isHardCoded a = true ∧ Watched s) (by rw [isHardCoded_iff]; rfl)

/-- Of a place that is looked at, the attributes that give credentials away are those with sensitive names and literal
texts; of any other place, none. -/
theorem filter_exposed (s : Site) :
    (s.block.attributes.filter fun a => Exposed s a) = if Watched s then credentials s.block else [] := by
  by_cases h : Watched s
  · rw [if_pos h, credentials]
    apply List.filter_congr
    intro a _
    rw [Bool.eq_iff_iff, decide_eq_true_iff, Bool.and_eq_true, isHardCoded_iff]
    exact ⟨fun ⟨hn, hv, _⟩ => ⟨hn, hv⟩, fun ⟨hn, hv⟩ => ⟨hn, hv, h⟩⟩
  · rw [if_neg h, List.filter_eq_nil_iff]
    intro a _ he
    exact h (of_decide_eq_true he).2.2

theorem code_exposure : (exposure s a).code = exposureCode s := by
  unfold exposure exposureCode
  split
  · rfl
  · rfl

theorem range_exposure : (exposure s a).range = a.range := by
  unfold exposure
  split
  · rfl
  · rfl

end Attributes

/-! ### The two checks -/

/-- What is to be said about all credentials in a forest. -/
def exposures (forest : List Block) : List Finding :=
  ((attributesOf forest).filter fun x => Exposed x.1 x.2).map fun x => exposure x.1 x.2

section Findings

variable {s : Site} {forest : List Block}

theorem exposures_eq_flatMap (forest : List Block) :
    exposures forest = (sites forest).flatMap fun s =>
      if Watched s then (credentials s.block).map (exposure s) else [] := by
  rw [exposures, attributesOf, List.filter_flatMap, List.map_flatMap]
  apply List.flatMap_congr
  intro s _
  rw [List.filter_map, List.map_map]
  show (s.block.attributes.filter fun a => Exposed s a).map (exposure s) = _
  rw [filter_exposed]
  split
  · rfl
  · rfl

theorem code_of_mem {l : List Attribute} {f : Finding} (hf : f ∈ l.map (exposure s)) : f.code = exposureCode s := by
  obtain ⟨a, _, rfl⟩ := List.mem_map.1 hf
  exact code_exposure

/-- Of the findings at one place, those with a code are all of them or none. -/
theorem filter_code (l : List Attribute) (code : String) :
    (l.map (exposure s)).filter (fun f => f.code = code) =
      if exposureCode s = code then l.map (exposure s) else [] := by
  by_cases h : exposureCode s = code
  · rw [if_pos h, List.filter_eq_self]
    intro f hf
    exact decide_eq_true ((code_of_mem hf).trans h)
  · rw [if_neg h, List.filter_eq_nil_iff]
    intro f hf he
    exact h ((code_of_mem hf).symm.trans (of_decide_eq_true he))

/-- The check of local values reports the credentials in `locals` blocks. -/
theorem findings_sensitiveLocal (forest : List Block) :
    Scan.findings (sites forest) sensitiveLocal = (exposures forest).filter fun f => f.code = "GEN002" := by
  rw [exposures_eq_flatMap, List.filter_flatMap, Scan.findings]
  apply List.flatMap_congr
  intro s _
  show (if s.block.kind = "locals" then _ else []) = _
  by_cases hk : s.block.kind = "locals"
  · have hw : Watched s := .inl hk
    have hcode : exposureCode s = "GEN002" := if_pos hk
    rw [if_pos hk, if_pos hw, filter_code, if_pos hcode]
    apply List.map_congr_left
    intro a _
    rw [exposure, if_pos hk]
    rfl
  · have hcode : exposureCode s = "GEN003" := if_neg hk
    rw [if_neg hk]
    split
    · rw [filter_code, hcode, if_neg (by decide)]
    · rfl

theorem any_declaration_iff :
    ((s.block :: s.ancestors).any fun b => declarationKinds.contains b.kind) = true ↔
      ¬∀ b ∈ s.block :: s.ancestors, b.kind ∉ ["variable", "locals", "output", "terraform"] := by
  rw [← Bool.not_eq_false, List.any_eq_false]
  simp only [declarationKinds, List.contains_iff_mem]

/-- The check of all other attributes reports the credentials elsewhere. -/
theorem findings_sensitiveAttribute (forest : List Block) :
    Scan.findings (sites forest) sensitiveAttribute = (exposures forest).filter fun f => f.code = "GEN003" := by
  rw [exposures_eq_flatMap, List.filter_flatMap, Scan.findings]
  apply List.flatMap_congr
  intro s _
  show (if (s.block :: s.ancestors).any fun b => declarationKinds.contains b.kind then [] else _) = _
  by_cases hd : ∀ b ∈ s.block :: s.ancestors, b.kind ∉ ["variable", "locals", "output", "terraform"]
  · have hw : Watched s := .inr hd
    have hk : s.block.kind ≠ "locals" := fun hk => hd s.block List.mem_cons_self (by simp [hk])
    have hcode : exposureCode s = "GEN003" := if_neg hk
    rw [if_neg (fun hany => any_declaration_iff.1 hany hd), if_pos hw, filter_code, if_pos hcode]
    apply List.map_congr_left
    intro a _
    rw [exposure, if_neg hk]
    rfl
  · rw [if_pos (any_declaration_iff.2 hd)]
    split
    · next hw =>
      -- what is watched inside of declarations are local values, which are the other check's
      have hcode : exposureCode s = "GEN002" := if_pos (hw.resolve_right hd)
      rw [filter_code, hcode, if_neg (by decide)]
    · rfl

theorem exposureCode_eq (s : Site) : exposureCode s = "GEN002" ∨ exposureCode s = "GEN003" := by
  unfold exposureCode
  split
  · exact .inl rfl
  · exact .inr rfl

theorem code_of_mem_exposures {f : Finding} (hf : f ∈ exposures forest) : f.code = "GEN002" ∨ f.code = "GEN003" := by
  obtain ⟨x, _, rfl⟩ := List.mem_map.1 hf
  rw [code_exposure]
  exact exposureCode_eq x.1

theorem filter_filter_code {fs : List Finding} {code code' : String} :
    (fs.filter fun f => f.code = code').filter (fun f => f.code = code) =
      if code' = code then fs.filter fun f => f.code = code else [] := by
  rw [List.filter_filter]
  by_cases h : code' = code
  · rw [if_pos h, h]
    simp only [Bool.and_self]
  · rw [if_neg h, List.filter_eq_nil_iff]
    intro f _ he
    rw [Bool.and_eq_true, decide_eq_true_iff, decide_eq_true_iff] at he
    exact h (he.2.symm.trans he.1)

/-- Findings with two codes, put together code by code, are for each code the same as before. -/
theorem filter_code_append {fs : List Finding} {c c' : String} (hne : c ≠ c')
    (hall : ∀ f ∈ fs, f.code = c ∨ f.code = c') (code : String) :
    ((fs.filter fun f => f.code = c) ++ fs.filter fun f => f.code = c').filter (fun f => f.code = code) =
      fs.filter fun f => f.code = code := by
  rw [List.filter_append, filter_filter_code, filter_filter_code]
  by_cases hc : c = code
  · have hc' : c' ≠ code := fun hc' => hne (hc.trans hc'.symm)
    rw [if_pos hc, if_neg hc', List.append_nil]
  · rw [if_neg hc, List.nil_append]
    by_cases hc' : c' = code
    · rw [if_pos hc']
    · rw [if_neg hc', eq_comm, List.filter_eq_nil_iff]
      intro f hf he
      have hcode : f.code = code := of_decide_eq_true he
      rcases hall f hf with h | h
      · exact hc (h.symm.trans hcode)
      · exact hc' (h.symm.trans hcode)

/-- Findings that are the same for each code are the same but for their order. -/
theorem perm_of_filter_code {fs gs : List Finding}
    (h : ∀ code, (fs.filter fun f => f.code = code) = gs.filter fun f => f.code = code) : fs.Perm gs := by
  rw [List.perm_iff_count]
  intro f
  have hcount (l : List Finding) : l.count f = (l.filter fun x => x.code = f.code).count f :=
    (List.count_filter (p := fun x : Finding => decide (x.code = f.code)) (decide_eq_true rfl)).symm
  rw [hcount fs, hcount gs, h]

end Findings

/-- The two checks together, in either order and with nothing suppressed, report every credential in a forest once and
nothing else; each of the two reports in the order of the walk and of the attributes in their blocks.  A finding points
to its attribute, and comes from the check of local values if and only if that stands in a `locals` block. -/
theorem scan_exposures {r : Registry}
    (hr : r.checks = [sensitiveLocal, sensitiveAttribute] ∨ r.checks = [sensitiveAttribute, sensitiveLocal])
    (forest : List Block) :
    (scan r none forest).Perm (((attributesOf forest).filter fun x => Exposed x.1 x.2).map fun x => exposure x.1 x.2) ∧
      (∀ code, (scan r none forest).filter (fun f => f.code = code) =
        (((attributesOf forest).filter fun x => Exposed x.1 x.2).map fun x => exposure x.1 x.2).filter
          fun f => f.code = code) ∧
      (attributesOf forest).map (·.2) = (Block.walkAll forest).flatMap (·.attributes) ∧
      ∀ s a, (exposure s a).range = a.range ∧ ((exposure s a).code = "GEN002" ↔ s.block.kind = "locals") ∧
        ((exposure s a).code = "GEN003" ↔ s.block.kind ≠ "locals") := by
  show (scan r none forest).Perm (exposures forest) ∧
    (∀ code, (scan r none forest).filter (fun f => f.code = code) =
      (exposures forest).filter fun f => f.code = code) ∧ _
  have hscan : scan r none forest = r.checks.flatMap (Scan.findings (sites forest)) := by
    rw [scan_eq]
    exact List.filter_eq_self.2 fun _ _ => rfl
  have hall : ∀ f ∈ exposures forest, f.code = "GEN002" ∨ f.code = "GEN003" := fun f hf => code_of_mem_exposures hf
  have hcodes (code : String) : (scan r none forest).filter (fun f => f.code = code) =
      (exposures forest).filter fun f => f.code = code := by
    rw [hscan]
    rcases hr with h | h
    · rw [h, List.flatMap_cons, List.flatMap_singleton, findings_sensitiveLocal, findings_sensitiveAttribute]
      exact filter_code_append (by decide) hall code
    · rw [h, List.flatMap_cons, List.flatMap_singleton, findings_sensitiveLocal, findings_sensitiveAttribute]
      exact filter_code_append (by decide) (fun f hf => (hall f hf).symm) code
  refine ⟨perm_of_filter_code hcodes, hcodes, ?_, fun s a => ⟨range_exposure, ?_, ?_⟩⟩
  · rw [attributesOf, List.map_flatMap, ← map_block_sites, List.flatMap_map]
    simp only [List.map_map, Function.comp_def, List.map_id']
  · rw [code_exposure, exposureCode]
    split
    · next hk => exact iff_of_true rfl hk
    · next hk => exact iff_of_false (by decide) hk
  · rw [code_exposure, exposureCode]
    split
    · next hk => exact iff_of_false (by decide) (not_not.2 hk)
    · next hk => exact iff_of_true rfl hk

/-- Credentials in local values, in a declaration, in local values inside of that, and in a child of a provider. -/
def scatteredCredentials : String :=
  "locals \x7b
  token = \"a\"
\x7d
terraform \x7b
  secret = \"b\"
  locals \x7b
    pass = \"c\"
  \x7d
\x7d
p \x7b
  q \x7b
    token = \"d\"
    secret = \"\"
  \x7d
\x7d"

/-- All of them are reported but the one in the declaration and the one that is empty. -/
theorem scan_exposures_scattered :
    ∃ d, (Document.parse "main.tf" scatteredCredentials).outcome = .ok d ∧
      ∃ r : Registry, r.checks = [sensitiveAttribute, sensitiveLocal] ∧ (scan r none d.blocks).length = 3 ∧
        ((scan r none d.blocks).filter fun f => f.code = "GEN002").map (·.range.startLine) = [2, 7] ∧
        ((scan r none d.blocks).filter fun f => f.code = "GEN003").map (·.range.startLine) = [12] := by
  let lines (code : String) (fs : List Finding) := (fs.filter fun f => f.code = code).map (·.range.startLine)
  obtain ⟨w, d, ho, hd⟩ := Logged.ok_of_map (o := Document.parse "main.tf" scatteredCredentials)
    (g := fun _ d => ((exposures d.blocks).length, lines "GEN002" (exposures d.blocks),
      lines "GEN003" (exposures d.blocks))) (b := (3, [2, 7], [12])) (by decide +kernel)
  simp only [Prod.mk.injEq] at hd
  obtain ⟨hlength, hlocal, hother⟩ := hd
  let r : Registry := ⟨[sensitiveAttribute, sensitiveLocal], by decide⟩
  obtain ⟨hperm, hcodes, -⟩ := scan_exposures (r := r) (.inr rfl) d.blocks
  refine ⟨d, congrArg Logged.outcome ho, r, rfl, hperm.length_eq.trans hlength, ?_, ?_⟩
  · rw [hcodes]
    exact hlocal
  · rw [hcodes]
    exact hother

end InfraAudit.Check
