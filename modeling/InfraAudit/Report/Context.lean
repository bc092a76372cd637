import InfraAudit.SourceRange

/-!
# InfraAudit.Report.Context — the lines around a range

* `window?`: the first and the last line to show.
* `highlight`: these lines with their texts, those of the range marked, the note on its first line.
-/

namespace InfraAudit.Report

/-- The number of lines shown before and after a range. -/
def contextLines : Int := 3

/-- A line to show. -/
structure SourceLine where
  number : Nat
  text : String
  highlighted : Bool
  note : String
  deriving DecidableEq

/-- The first and the last line to show in a file of `count` lines, if there is a line to show. -/
def window? (r : SourceRange) (count : Nat) (padding : Int) : Option (Nat × Nat) :=
  let first := max 1 ((r.startLine : Int) - padding)
  let last := min (count : Int) (r.endLine + padding)
  if last < first then none else some (first.toNat, last.toNat)

/-- The lines of a file to show for a range. -/
def highlight (r : SourceRange) (lines : List String) (note : String) (padding : Int) : List SourceLine :=
  match window? r lines.length padding with
  | none => []
  | some (first, last) =>
    ((lines.take last).drop (first - 1)).zipIdx first |>.map fun (text, number) =>
      ⟨number, text, r.containsLine number, if number = r.startLine then note else ""⟩

end InfraAudit.Report
