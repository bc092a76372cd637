import InfraAudit.Proofs.Hcl.Traversal
import InfraAudit.Scan

/-!
# InfraAudit.Proofs.Scan.Grouping — one check at a time

A scan goes from block to block and keeps a tally for each check.  Here the two loops change places.

* `Scan.findings`: what a check finds in all places, one after the other.
* `tallies_eq`: after all places the tally of a check is what it finds there.
* `scan_eq`: a scan is, check by check, what is found and not suppressed.
* `scan_eq_flatMap`: a scan is, check by check, the scan with that check alone; whatever fails at one place keeps its
  findings at all others.
-/

namespace InfraAudit

open InfraAudit.Hcl

namespace Scan

/-- What a check finds in all places. -/
def findings (places : List Site) (c : Check) : List Finding :=
  places.flatMap fun s => (c.apply s).kept

theorem findings_flatMap {α : Type} (l : List α) (places : α → List Site) (c : Check) :
    findings (l.flatMap places) c = l.flatMap fun x => findings (places x) c :=
  List.flatMap_assoc

theorem mem_findings {places : List Site} {c : Check} {f : Finding} :
    f ∈ findings places c ↔ ∃ s ∈ places, f ∈ (c.apply s).kept :=
  List.mem_flatMap

/-- The tallies after some places, from any tallies on. -/
theorem foldl_visit (places : List Site) (ts : List Tally) :
    places.foldl (fun ts s => ts.map (·.visit s)) ts =
      ts.map fun t => ⟨t.check, t.found ++ findings places t.check⟩ := by
  induction places generalizing ts with
  | nil => simp [findings]
  | cons s places ih =>
    rw [List.foldl_cons, ih, List.map_map]
    refine List.map_congr_left fun t _ => ?_
    simp [Tally.visit, findings]

/-- The tally of a check is what it finds in all places, one after the other. -/
theorem tallies_eq (checks : List Check) (places : List Site) :
    tallies checks places = checks.map fun c => ⟨c, findings places c⟩ := by
  rw [tallies, foldl_visit, List.map_map]
  rfl

/-- Whether a finding is reported: it is not suppressed. -/
def shown (ignores : Option Ignore.Index) (f : Finding) : Bool :=
  !ignores.any (·.suppresses f)

end Scan

/-- A scan is, check by check, what is found in all places and not suppressed. -/
theorem scan_eq (r : Registry) (ignores : Option Ignore.Index) (forest : List Block) :
    scan r ignores forest = (r.checks.flatMap (Scan.findings (sites forest))).filter (Scan.shown ignores) := by
  simp only [scan, Scan.tallies_eq, List.flatMap_map]
  cases ignores with
  | none => exact (List.filter_eq_self.2 fun _ _ => rfl).symm
  | some ix => rfl

/-! ### A check alone -/

/-- The registry of one check. -/
def Registry.only (c : Check) : Registry :=
  ⟨[c], List.pairwise_singleton _ _⟩

theorem scan_only (c : Check) (ignores : Option Ignore.Index) (forest : List Block) :
    scan (.only c) ignores forest = (Scan.findings (sites forest) c).filter (Scan.shown ignores) := by
  rw [scan_eq, Registry.only, List.flatMap_singleton]

/-- A scan is the scans with each check alone, in order of registration.  With one check it goes through the blocks in
the order of the walk; each gives all findings of the check there, or none if the check fails there, without those that
are suppressed. -/
theorem scan_eq_flatMap (r : Registry) (ignores : Option Ignore.Index) (forest : List Block) :
    scan r ignores forest = r.checks.flatMap (fun c => scan (.only c) ignores forest) ∧
      (∀ c : Check, scan (.only c) ignores forest =
        ((sites forest).flatMap fun s =>
          match c.apply s with
          | ⟨found, none⟩ => found
          | ⟨_, some _⟩ => []).filter fun f => !ignores.any (·.suppresses f)) ∧
      (sites forest).map (·.block) = Block.walkAll forest := by
  refine ⟨?_, fun c => ?_, map_block_sites forest⟩
  · simp only [scan_only]
    rw [scan_eq, List.filter_flatMap]
  · have hkept (s : Site) : (c.apply s).kept =
        match c.apply s with
        | ⟨found, none⟩ => found
        | ⟨_, some _⟩ => [] := by
      obtain ⟨found, failure⟩ := c.apply s
      cases failure <;> rfl
    rw [scan_only]
    simp only [Scan.findings, hkept]
    rfl

end InfraAudit
