import InfraAudit.Files.Workspace
import InfraAudit.Report.Sarif
import InfraAudit.Report.Text

/-!
# InfraAudit.Report.Format — the three forms of a report
-/

namespace InfraAudit.Report

open InfraAudit.Text InfraAudit.Files

/-- The version that the tool gives as its own. -/
def toolVersion : String := "0.3.0"

/-- The names of the forms. -/
inductive Format
  | text
  | json
  | sarif
  deriving DecidableEq

namespace Format

/-- All forms. -/
def all : List Format := [.text, .json, .sarif]

/-- The word for a form. -/
def name : Format → String
  | .text => "text"
  | .json => "json"
  | .sarif => "sarif"

/-- The form that a word names, in any case. -/
def ofName? (word : String) : Option Format :=
  all.find? (·.name == lowerLatin word)

/-- The words for all forms, quoted. -/
def quotedNames : String :=
  ", ".intercalate (all.map fun f => quoted f.name)

/-- What is said about a word that names no form. -/
def unknownMessage (word : String) : String :=
  s!"Unknown report format: {word}. Supported: [{quotedNames}]"

end Format

/-- A finding as JSON. -/
def findingJson (f : Finding) : Json :=
  .object [("Code", .string f.code), ("Description", .string f.description),
    ("Range", .object [("Filename", .string f.range.filename), ("StartLine", .integer f.range.startLine),
      ("EndLine", .integer f.range.endLine)]),
    ("RangeAnnotation", .string f.note), ("Severity", .string f.severity.name)]

/-- A form of report with its settings. -/
inductive Form
  | text (style : TextStyle)
  | json (indent : Option Nat)
  | sarif (checks : List Profile) (base time : String)

namespace Form

/-- The text of a report; `lines?` gives the lines of a file. -/
def render (lines? : String → Option (List String)) (fs : List Finding) : Form → String
  | .text style => style.render lines? fs
  | .json indent => (Json.array (fs.map findingJson)).render indent
  | .sarif checks base time => (Sarif.log checks toolVersion base time fs).render (some 2)

/-- Whether a form shows the lines of files. -/
def showsLines : Form → Bool
  | .text _ => true
  | _ => false

/-- The text of a report on findings in the files of a workspace.  No lines can be asked for by a name with a NUL. -/
def write (form : Form) (w : Workspace) (fs : List Finding) : Except FileError String :=
  if form.showsLines && fs.any fun f => nameError? f.range.filename == some .nulInName then .error .nulInName
  else .ok (form.render w.lines? fs)

end Form

end InfraAudit.Report
