import InfraAudit.Check.Basic
import InfraAudit.Files.Path
import InfraAudit.Json
import InfraAudit.Keyed

/-!
# InfraAudit.Report.Sarif — findings for other tools

A SARIF log lists rules and results; each result refers to its rule by index.  The checks that ran become rules
first, then the codes of findings that no check has.
-/

namespace InfraAudit.Report

open InfraAudit.Files

/-- A rule: what kind of problem the results with its code report. -/
structure Rule where
  code : String
  description : String
  severity : Severity
  provider : String

/-- The rules of a log, and the rule that each code refers to. -/
structure RuleTable where
  rules : List Rule
  indices : List (String × Nat)

namespace RuleTable

/-- No rules. -/
def empty : RuleTable := ⟨[], []⟩

/-- The table with one more rule, to which its code refers from now on. -/
def add (t : RuleTable) (r : Rule) : RuleTable :=
  ⟨t.rules ++ [r], Keyed.put r.code t.rules.length t.indices⟩

/-- The table with the rule of a check. -/
def addCheck (t : RuleTable) (p : Profile) : RuleTable :=
  t.add ⟨p.code, p.description, p.severity, p.provider⟩

/-- The table with a rule for a finding, unless its code has one. -/
def addFinding (t : RuleTable) (f : Finding) : RuleTable :=
  if (t.indices.lookup f.code).isSome then t else t.add ⟨f.code, f.description, f.severity, ""⟩

/-- The rules of the checks that ran and of the findings. -/
def of (checks : List Profile) (fs : List Finding) : RuleTable :=
  fs.foldl addFinding (checks.foldl addCheck empty)

/-- The index of the rule of a code. -/
def index (t : RuleTable) (code : String) : Nat :=
  (t.indices.lookup code).getD 0

end RuleTable

namespace Sarif

/-- The level of a severity. -/
def level : Severity → String
  | .error => "error"
  | .warning => "warning"
  | .info => "note"

/-- A text with its key. -/
def message (s : String) : Json :=
  .object [("text", .string s)]

/-- A rule in the log. -/
def ruleJson (r : Rule) : Json :=
  .object [("id", .string r.code), ("name", .string r.code), ("shortDescription", message r.description),
    ("defaultConfiguration", .object [("level", .string (level r.severity))]),
    ("properties", .object [("tags", .array
      (["security", "terraform"] ++ (if r.provider = "" then [] else [r.provider]) |>.map .string))])]

/-- The name of a file in the log: as seen from the base directory if it lies below it. -/
def uri (base : String) (filename : String) : String :=
  let path := Path.parse filename
  if base = "" then path.text else ((path.relativeTo? (Path.parse base)).getD path).text

/-- A finding in the log. -/
def resultJson (base : String) (t : RuleTable) (f : Finding) : Json :=
  .object ([("ruleId", .string f.code), ("ruleIndex", .integer (t.index f.code)),
    ("level", .string (level f.severity)), ("message", message f.description),
    ("locations", .array [.object [("physicalLocation", .object [
      ("artifactLocation", .object [("uri", .string (uri base f.range.filename))]),
      ("region", .object [("startLine", .integer f.range.startLine), ("endLine", .integer f.range.endLine)])])]])] ++
    if f.note = "" then [] else [("properties", .object [("annotation", .string f.note)])])

/-- The schema of the log. -/
def schema : String :=
  "https://raw.githubusercontent.com/oasis-tcs/sarif-spec/master/Schemata/sarif-schema-2.1.0.json"

/-- The log of findings: the checks that ran, the version of the tool, the base directory of file names (none if
empty) and the time of the run. -/
def log (checks : List Profile) (version base time : String) (fs : List Finding) : Json :=
  let t := RuleTable.of checks fs
  .object [("$schema", .string schema), ("version", .string "2.1.0"), ("runs", .array [.object [
    ("tool", .object [("driver", .object [("name", .string "tfsentinel"), ("version", .string version),
      ("rules", .array (t.rules.map ruleJson))])]),
    ("results", .array (fs.map (resultJson base t))),
    ("invocations", .array [.object [("executionSuccessful", .bool true), ("endTimeUtc", .string time)]])]])]

end Sarif

end InfraAudit.Report
