import InfraAudit.Check.Basic
import InfraAudit.Check.Names

/-!
# InfraAudit.Check.General — credentials in configurations

These checks look for credentials written straight into a configuration: an attribute with a sensitive name whose
value is a literal text other than the empty one.
-/

namespace InfraAudit.Check

open InfraAudit.Hcl

/-- Blocks whose attributes are no arguments of resources. -/
def declarationKinds : List String := ["variable", "locals", "output", "terraform"]

/-- Whether the value of an attribute is a literal text other than the empty one. -/
def isHardCoded (a : Attribute) : Bool :=
  a.value.string?.any (· != "")

/-- The attributes of a block that hold credentials. -/
def credentials (b : Block) : List Attribute :=
  b.attributes.filter fun a => isSensitiveName a.name && isHardCoded a

/-- Defaults of variables with sensitive names. -/
def sensitiveVariableDefault : Check :=
  let p : Profile := ⟨"GEN001", "SensitiveVariableDefault",
    "Potentially sensitive data stored in a variable default.", .warning, "general"⟩
  ofFindings p fun s =>
    let b := s.block
    if b.kind = "variable" && b.typeLabel?.any isSensitiveName then
      ((b.attribute? "default").filter isHardCoded).toList.map fun a =>
        p.onAttribute a s!"Variable '{b.fullName}' includes a potentially sensitive default value." ""
    else []

/-- Local values with sensitive names. -/
def sensitiveLocal : Check :=
  let p : Profile := ⟨"GEN002", "SensitiveLocal",
    "Potentially sensitive data stored in a local value.", .warning, "general"⟩
  ofFindings p fun s =>
    if s.block.kind = "locals" then
      (credentials s.block).map fun a => p.onAttribute a
        (s!"Local 'local.{a.name}' includes a potentially sensitive value " ++
          "which is defined within the project.") ""
    else []

/-- Attributes with sensitive names, outside declarations. -/
def sensitiveAttribute : Check :=
  let p : Profile := ⟨"GEN003", "SensitiveAttribute",
    "Potentially sensitive data stored in a block attribute.", .warning, "general"⟩
  ofFindings p fun s =>
    if (s.block :: s.ancestors).any fun b => declarationKinds.contains b.kind then []
    else (credentials s.block).map fun a => p.onAttribute a
      (s!"Block '{s.block.fullName}' includes a potentially sensitive attribute " ++
        s!"'{a.name}' which is defined within the project.") ""

end InfraAudit.Check
