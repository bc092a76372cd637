import InfraAudit.Proofs.Check.Reporting
import InfraAudit.Proofs.Scan.Grouping

/-!
# InfraAudit.Proofs.Scan.Selection — leaving out checks or their findings

A selection leaves out checks by code and by severity.  Every finding of a built-in check carries the code and the
severity of the check, so the same findings are left out when the findings of all checks are selected.

* `Selection.passes`: what a selection asks of a code and a severity.
* `scan_ofSelection`: the scan with a selection is the selected part of the scan with all built-in checks.
-/

namespace InfraAudit

open InfraAudit.Hcl InfraAudit.Text

namespace Selection

/-- Whether a code and a severity are selected: the code is none of the excluded ones in their normal form, and the
severity is at least the minimum, if there is one. -/
def passes (s : Selection) (code : String) (severity : Severity) : Bool :=
  !(s.exclude.map normalCode).contains code && s.minimum.all fun m => m.priority ≤ severity.priority

/-- Blank codes exclude nothing, as their normal form is empty. -/
theorem mem_excluded_iff {s : Selection} {code : String} (h : code ≠ "") :
    code ∈ s.excluded ↔ code ∈ s.exclude.map normalCode := by
  simp only [excluded, List.mem_map, List.mem_filter, decide_eq_true_eq]
  constructor
  · rintro ⟨c, ⟨hc, -⟩, rfl⟩
    exact ⟨c, hc, rfl⟩
  · rintro ⟨c, hc, rfl⟩
    refine ⟨c, ⟨hc, fun hblank => h ?_⟩, rfl⟩
    rw [normalCode, hblank]
    decide +kernel

theorem keeps_eq_passes (s : Selection) {c : Check} (h : c.code ≠ "") : s.keeps c = s.passes c.code c.severity := by
  have hcode : s.excluded.contains c.code = (s.exclude.map normalCode).contains c.code := by
    rw [Bool.eq_iff_iff, List.contains_iff_mem, List.contains_iff_mem, mem_excluded_iff h]
  rw [keeps, passes, hcode]

end Selection

theorem code_ne_of_mem_builtins {c : Check} (h : c ∈ builtins) : c.code ≠ "" := by
  have hall : "" ∉ builtins.map (·.code) := by decide
  exact fun he => hall (he ▸ List.mem_map_of_mem h)

namespace Scan

/-- If a condition on findings decides on all findings of a check at once, as another one does on the check, then it
makes no difference which of the two is asked. -/
theorem flatMap_findings_filter {places : List Site} {checks : List Check} {keep : Check → Bool} {q : Finding → Bool}
    (h : ∀ c ∈ checks, ∀ f ∈ findings places c, q f = keep c) :
    (checks.filter keep).flatMap (findings places) = (checks.flatMap (findings places)).filter q := by
  induction checks with
  | nil => rfl
  | cons c checks ih =>
    obtain ⟨hc, h⟩ := List.forall_mem_cons.1 h
    rw [List.filter_cons, List.flatMap_cons, List.filter_append, ← ih h]
    cases hk : keep c with
    | true =>
      have hq : (findings places c).filter q = findings places c :=
        List.filter_eq_self.2 fun f hf => (hc f hf).trans hk
      rw [if_pos rfl, List.flatMap_cons, hq]
    | false =>
      have hq : (findings places c).filter q = [] :=
        List.filter_eq_nil_iff.2 fun f hf => by rw [hc f hf, hk]; exact Bool.false_ne_true
      rw [if_neg Bool.false_ne_true, hq, List.nil_append]

end Scan

/-- Excluding checks and asking for a minimum severity is the same as selecting findings: those whose code is not one
of the excluded codes, stripped and in upper case, and whose severity is at least the minimum, in the same order. -/
theorem scan_ofSelection (s : Selection) (ignores : Option Ignore.Index) (forest : List Block) :
    scan (.ofSelection s) ignores forest =
      (scan (.ofSelection ⟨[], none⟩) ignores forest).filter fun f =>
        !(s.exclude.map fun code => upper (strip code)).contains f.code &&
          s.minimum.all fun m => m.priority ≤ f.severity.priority := by
  have hall : (Registry.ofSelection ⟨[], none⟩).checks = builtins := List.filter_eq_self.2 fun _ _ => rfl
  have hstamp : ∀ c ∈ builtins, ∀ f ∈ Scan.findings (sites forest) c,
      s.passes f.code f.severity = s.keeps c := by
    intro c hc f hf
    obtain ⟨site, -, hf⟩ := Scan.mem_findings.1 hf
    have hr := Check.precise_builtins c hc site f hf
    rw [s.keeps_eq_passes (code_ne_of_mem_builtins hc), hr.code, hr.severity]
  have hkept : (Registry.ofSelection s).checks.flatMap (Scan.findings (sites forest)) =
      (builtins.flatMap (Scan.findings (sites forest))).filter fun f => s.passes f.code f.severity :=
    Scan.flatMap_findings_filter hstamp
  rw [scan_eq, scan_eq, hkept, hall, List.filter_filter, List.filter_filter]
  exact List.filter_congr fun f _ => Bool.and_comm _ _

end InfraAudit
