import InfraAudit.Finding
import InfraAudit.Hcl.Block

/-!
# InfraAudit.Check.Basic — checks

A check looks at one block in its place and gives a verdict: findings, and perhaps a failure, which makes the
findings of this block void.  Most checks look only at resources of certain types.
-/

namespace InfraAudit

open InfraAudit.Hcl

/-- What a check says about one block. -/
structure Verdict where
  found : List Finding
  failure : Option String

/-- The findings that count: none if the check failed. -/
def Verdict.kept (v : Verdict) : List Finding :=
  if v.failure.isNone then v.found else []

/-- What is known about a check without running it. -/
structure Profile where
  code : String
  name : String
  description : String
  severity : Severity
  provider : String

namespace Profile

/-- A finding of the check; without a description of its own it takes that of the check. -/
def finding (p : Profile) (range : SourceRange) (description note : String) : Finding :=
  ⟨p.code, if description = "" then p.description else description, range, p.severity, note⟩

/-- A finding about a whole block. -/
def onBlock (p : Profile) (b : Block) (description note : String) : Finding :=
  p.finding b.range description note

/-- A finding about an attribute. -/
def onAttribute (p : Profile) (a : Attribute) (description note : String) : Finding :=
  p.finding a.range description note

/-- A finding about an attribute, with its value as a note. -/
def onValue (p : Profile) (a : Attribute) (description : String) : Finding :=
  p.onAttribute a description a.value.text

/-- The check in messages. -/
def text (p : Profile) : String :=
  "<" ++ p.name ++ " " ++ p.code ++ ">"

end Profile

/-- A check: its profile and what it says about a block in its place. -/
structure Check extends Profile where
  apply : Site → Verdict

namespace Check

/-- A check that cannot fail. -/
def ofFindings (p : Profile) (inspect : Site → List Finding) : Check :=
  { p with apply := fun s => ⟨inspect s, none⟩ }

/-- A check of the resources of some types. -/
def ofResource (p : Profile) (types : List String) (inspect : Block → List Finding) : Check :=
  ofFindings p fun s => if s.block.isResource types then inspect s.block else []

/-! ### Reading attributes -/

/-- The first text of an attribute that satisfies a condition. -/
def firstText? (a : Attribute) (p : String → Bool) : Option String :=
  a.value.strings.find? p

/-- A text between double quotes. -/
def doubleQuoted (s : String) : String :=
  "\"" ++ s ++ "\""

/-- Whether an attribute is known to be the given boolean. -/
def isKnown (a : Attribute) (b : Bool) : Bool :=
  a.value.bool? == some b

end Check

end InfraAudit
