import InfraAudit.Severity
import InfraAudit.SourceRange

/-!
# InfraAudit.Finding — what a check reports
-/

namespace InfraAudit

/-- A problem at a range of lines. -/
structure Finding where
  code : String
  description : String
  range : SourceRange
  severity : Severity
  note : String
  deriving DecidableEq

/-- Why a finding cannot be. -/
inductive FindingError
  | emptyCode
  | emptyDescription
  deriving DecidableEq

/-- What is said about an impossible finding. -/
def FindingError.message : FindingError → String
  | .emptyCode => "Result code must not be empty"
  | .emptyDescription => "Result description must not be empty"

/-- A finding with a code and a description. -/
def Finding.make? (code description : String) (range : SourceRange) (severity : Severity) (note : String) :
    Except FindingError Finding :=
  if code = "" then .error .emptyCode
  else if description = "" then .error .emptyDescription
  else .ok ⟨code, description, range, severity, note⟩

end InfraAudit
