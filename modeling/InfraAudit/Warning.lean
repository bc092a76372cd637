import InfraAudit.SourceRange

/-!
# InfraAudit.Warning — what is said without stopping

A step of the work may give warnings and then succeed or fail: `Logged` keeps them next to the outcome, so they are
not lost when the step fails.
-/

namespace InfraAudit

/-- A remark on a configuration, on the settings or on a check. -/
inductive Warning
  | topLevelAttribute (filename : String) (line : Nat) (name : String)
  | checkFailed (code block : String) (range : SourceRange) (reason : String)
  | unknownCheck (code : String)
  | unknownKey (source key : String)
  deriving DecidableEq

/-- The text of a warning. -/
def Warning.message : Warning → String
  | .topLevelAttribute filename line name => s!"{filename}:{line}: ignoring top level attribute '{name}'"
  | .checkFailed code block range reason => s!"Check {code} failed on {block} (" ++ range.text ++ s!"): {reason}"
  | .unknownCheck code => s!"Excluded check {code} does not exist"
  | .unknownKey source key => s!"{source}: ignoring unknown key '{key}'"

/-- An outcome with the warnings given on the way to it. -/
structure Logged (α : Type) where
  warnings : List Warning
  outcome : α

end InfraAudit
