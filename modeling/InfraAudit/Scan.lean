import InfraAudit.Check.Registry
import InfraAudit.Ignore.Index

/-!
# InfraAudit.Scan — all checks on all blocks

Every block is visited once, in the order of the walk, and every check applied to it.  The findings are grouped by
check, in order of registration; a check that fails on a block says nothing about it and leaves a warning.
-/

namespace InfraAudit

open InfraAudit.Hcl

namespace Scan

/-- A check with what it has found so far. -/
structure Tally where
  check : Check
  found : List Finding

/-- The tally after one more block. -/
def Tally.visit (s : Site) (t : Tally) : Tally :=
  { t with found := t.found ++ (t.check.apply s).kept }

/-- The warning of a check that fails on a block. -/
def failure? (s : Site) (c : Check) : Option Warning :=
  (c.apply s).failure.map fun reason => .checkFailed c.code s.block.fullName s.block.range reason

/-- The tallies after all blocks. -/
def tallies (checks : List Check) (places : List Site) : List Tally :=
  places.foldl (fun ts s => ts.map (·.visit s)) (checks.map fun c => ⟨c, []⟩)

/-- The warnings of all blocks, in the order of the visits. -/
def warnings (checks : List Check) (places : List Site) : List Warning :=
  places.flatMap fun s => checks.filterMap (failure? s)

end Scan

/-- The findings of the checks of a registry on a forest, without those that are suppressed. -/
def scan (r : Registry) (ignores : Option Ignore.Index) (forest : List Block) : List Finding :=
  let found := (Scan.tallies r.checks (sites forest)).flatMap (·.found)
  match ignores with
  | some ix => found.filter fun f => !ix.suppresses f
  | none => found

/-- The warnings of the checks of a registry on a forest. -/
def scanWarnings (r : Registry) (forest : List Block) : List Warning :=
  Scan.warnings r.checks (sites forest)

end InfraAudit
