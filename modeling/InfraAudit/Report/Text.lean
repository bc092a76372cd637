import InfraAudit.Finding
import InfraAudit.Report.Context

/-!
# InfraAudit.Report.Text — findings for a reader

Each finding is shown with its code, description and range, and the source lines around it.  On a terminal the
parts are coloured; the colours change nothing else.
-/

namespace InfraAudit.Report

open InfraAudit.Text

/-- The looks of a part of the report. -/
inductive Tint
  | red
  | yellow
  | blue
  | green
  | bold
  | underline
  deriving DecidableEq

/-- The number that switches a look on. -/
def Tint.number : Tint → Nat
  | .red => 91
  | .yellow => 93
  | .blue => 94
  | .green => 92
  | .bold => 1
  | .underline => 4

/-- The look of a severity. -/
def severityTint : Severity → Tint
  | .error => .red
  | .warning => .yellow
  | .info => .blue

/-- A control sequence that changes the look of what follows. -/
def control (n : Nat) : String :=
  "\x1b[" ++ toString n ++ "m"

/-- How the report is written. -/
structure TextStyle where
  coloured : Bool
  verbose : Bool

namespace TextStyle

/-- A part of the report with its look. -/
def paint (style : TextStyle) (tint : Tint) (s : String) : String :=
  if style.coloured then control tint.number ++ s ++ control 0 else s

/-- A number at the right end of six columns. -/
def sixColumns (n : Nat) : String :=
  String.ofList (List.replicate (6 - (toString n).length) ' ') ++ toString n

/-- A source line. -/
def sourceLine (style : TextStyle) (l : SourceLine) : String :=
  let gutter := "  " ++ style.paint .blue (sixColumns l.number) ++ " | "
  if l.highlighted then
    let note := if l.note = "" then "" else "    " ++ style.paint .blue l.note
    gutter ++ style.paint .bold (style.paint .red l.text ++ note)
  else gutter ++ style.paint .yellow l.text

/-- The lines of one finding; `lines?` gives the lines of a file. -/
def findingLines (style : TextStyle) (lines? : String → Option (List String)) (index : Nat) (f : Finding) :
    List String :=
  [style.paint .underline ("Problem " ++ toString index), "",
    "  " ++ style.paint .blue "[" ++ f.code ++ style.paint .blue "]" ++ " " ++ f.description,
    "  " ++ style.paint .blue f.range.text] ++
  (if style.verbose then ["  Severity: " ++ style.paint (severityTint f.severity) (upper f.severity.name)] else []) ++
  [""] ++
  (match lines? f.range.filename with
    | some lines => (highlight f.range lines f.note contextLines).map style.sourceLine ++ [""]
    | none => [])

/-- The lines of a report. -/
def reportLines (style : TextStyle) (lines? : String → Option (List String)) (fs : List Finding) : List String :=
  if fs.isEmpty then ["", style.paint .green "No problems detected!", ""]
  else ["", style.paint .red (toString fs.length ++ " potential problems detected:"), ""] ++
    (fs.zipIdx 1).flatMap fun (f, index) => style.findingLines lines? index f

/-- The text of a report. -/
def render (style : TextStyle) (lines? : String → Option (List String)) (fs : List Finding) : String :=
  "\n".intercalate (style.reportLines lines? fs)

end TextStyle

end InfraAudit.Report
