import InfraAudit.Text.Blank
import InfraAudit.Text.Case

/-!
# InfraAudit.Severity — how serious a finding is
-/

namespace InfraAudit

open InfraAudit.Text

/-- How serious a finding is. -/
inductive Severity
  | error
  | warning
  | info
  deriving DecidableEq, Inhabited

namespace Severity

/-- All severities, the most serious first. -/
def all : List Severity := [.error, .warning, .info]

/-- The word for a severity. -/
def name : Severity → String
  | .error => "error"
  | .warning => "warning"
  | .info => "info"

/-- The rank of a severity; a more serious one ranks higher. -/
def priority : Severity → Nat
  | .error => 3
  | .warning => 2
  | .info => 1

/-- The severity that a word names, in any case and with white space around it. -/
def ofName? (word : String) : Option Severity :=
  all.find? (·.name == lowerLatin (strip word))

/-- What is said about a word that names no severity. -/
def unknownMessage (word : String) : String :=
  s!"Unknown severity '{word}' (expected one of: " ++ ", ".intercalate (all.map name) ++ ")"

end Severity

end InfraAudit
