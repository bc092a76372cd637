import InfraAudit.Text.Word

/-!
# InfraAudit.Yaml.Token — the parts of a text

Indentation appears as tokens of its own: one where a block list or a block mapping starts, and one where it ends.
-/

namespace InfraAudit.Yaml

/-- A list or a mapping. -/
inductive Shape
  | list
  | mapping
  deriving DecidableEq

/-- What a line with a percent sign says. -/
inductive Directive
  | version (major : Nat)
  | handle (name target : String)
  | other
  deriving DecidableEq

/-- A part of a text. -/
inductive Token
  | directive (d : Directive)
  | documentStart
  | documentEnd
  | streamEnd
  | blockStart (s : Shape)
  | blockEnd
  | flowStart (s : Shape)
  | flowEnd (s : Shape)
  | comma
  | dash
  | key
  | value
  | alias (name : String)
  | anchor (name : String)
  | tag (handle : Option String) (suffix : String)
  | scalar (text : String) (plain : Bool)
  deriving DecidableEq, Inhabited

end InfraAudit.Yaml
