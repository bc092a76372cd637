import InfraAudit.CommandLine.Options
import InfraAudit.Config.Settings
import InfraAudit.Project
import InfraAudit.Scan

/-!
# InfraAudit.CommandLine.Run — a whole run of the tool

* `Options.report`: settings, files, checks and findings, in this order; the first failure ends the scan.  An option
  left without the value that it needs is a failure where the value is used.
* `run`: the outcome of a command line: what is printed, what is written and how the run ends.

A scan that fails prints nothing but its error, and writes no file.
-/

namespace InfraAudit.CommandLine

open InfraAudit.Files InfraAudit.Config InfraAudit.Report

/-- Where the tool runs: the files, whether it prints on a terminal, and the time. -/
structure Surroundings where
  files : Workspace
  terminal : Bool
  time : String

/-- An option whose value is needed. -/
inductive Needed
  | exclude
  | jobs
  | format
  deriving DecidableEq

/-- What is said about an option that is given without the value that is needed. -/
def Needed.message : Needed → String
  | .exclude => "'list' object has no attribute 'split'"
  | .jobs => "'>' not supported between instances of 'list' and 'int'"
  | .format => "'list' object has no attribute 'lower'"

/-- Why a scan yields no report. -/
inductive RunFailure
  | settings (e : ConfigError)
  | input (e : ReadError)
  | noValue (x : Needed)
  | output (name : String) (e : FileError)

/-- What is said about a failed scan. -/
def RunFailure.message : RunFailure → String
  | .settings e => e.message
  | .input e => e.message
  | .noValue x => x.message
  | .output name e => e.text name

/-- Whether a failure is one that the tool accounts for; others are not caught while debugging. -/
def RunFailure.isExpected : RunFailure → Bool
  | .settings e => e.isExpected
  | .input (.invalid _ (.badSyntax _ _)) => true
  | .input (.invalid _ _) => false
  | .input (.unreachable _ _) => false
  | .input _ => true
  | .noValue _ => false
  | .output _ _ => false

/-! ### The scan -/

/-- The directory to scan. -/
def Options.place (o : Options) (w : Workspace) : String :=
  match o.directory with
  | none | some "" => w.currentName
  | some name => (Path.parse name).text

/-- The settings that the command line names, or those of the directory. -/
def Options.settings (o : Options) (w : Workspace) : Logged (Except ConfigError Selection) :=
  match o.config with
  | none | some "" => match Config.find? w (o.place w) with
    | .error e => ⟨[], .error e⟩
    | .ok (some path) => Config.load w path.text
    | .ok none => ⟨[], .ok everything⟩
  | some name => Config.load w name

/-- The settings with what the command line adds to them. -/
def Options.selection (o : Options) (s : Selection) : Except RunFailure Selection :=
  if o.exclude.contains none then .error (.noValue .exclude)
  else if !o.jobs then .error (.noValue .jobs)
  else
    let s := (o.exclude.filterMap id).foldl (fun s codes => merge s (splitCodes codes)) s
    .ok { s with minimum := o.minimum.or s.minimum }

/-- The form of the report on the checks of a registry. -/
def Options.form (o : Options) (around : Surroundings) (r : Registry) : Except RunFailure Form :=
  match o.format with
  | none => .error (.noValue .format)
  | some .text => .ok (.text ⟨!o.plain && around.terminal, o.verbose⟩)
  | some .json => .ok (.json none)
  | some .sarif => .ok (.sarif (r.checks.map (·.toProfile)) (o.place around.files) around.time)

/-- The findings of a scan, and the text of the report on them. -/
structure ScanReport where
  findings : List Finding
  text : String

/-- The report on the configuration of a directory with a given selection of checks. -/
def Options.reportOn (o : Options) (around : Surroundings) (selection : Selection) :
    Logged (Except RunFailure ScanReport) :=
  let w := around.files
  let project := Project.empty.addDirectory w (o.place w)
  match project.outcome with
  | .error e => ⟨project.warnings, .error (.input e)⟩
  | .ok p =>
    let registry := Registry.ofSelection selection
    let found := scan registry (some p.ignores) p.blocks
    ⟨project.warnings ++ selection.warnings ++ scanWarnings registry p.blocks,
      (o.form around registry).map fun form => ⟨found, form.render w.lines? found⟩⟩

/-- The report on the configuration of a directory. -/
def Options.report (o : Options) (around : Surroundings) : Logged (Except RunFailure ScanReport) :=
  let settings := o.settings around.files
  match settings.outcome.mapError .settings >>= o.selection with
  | .error e => ⟨settings.warnings, .error e⟩
  | .ok selection =>
    let report := o.reportOn around selection
    ⟨settings.warnings ++ report.warnings, report.outcome⟩

/-! ### The list of checks -/

/-- A text with spaces after it, up to eight columns. -/
def eightColumns (s : String) : String :=
  s ++ String.ofList (List.replicate (8 - s.length) ' ')

/-- A line across the list. -/
def rule : String :=
  String.ofList (List.replicate 80 '-')

/-- The checks of a registry, by provider. -/
def listing (r : Registry) : List String :=
  let providers := (r.checks.map (·.provider)).eraseDups.mergeSort fun a b => a ≤ b
  ["", "Available Checks (" ++ toString r.checks.length ++ " total):", "", rule] ++
    (providers.flatMap fun provider => ["", "[" ++ provider ++ "]"] ++
      (r.checks.filter (·.provider == provider)).map fun c =>
        "  " ++ eightColumns c.code ++ " " ++ eightColumns c.severity.name ++ " " ++ c.description) ++
    ["", rule]

/-! ### The run -/

/-- How a run ends: before any work, with the list of checks, with a report, or with a failure, which is not caught if
it is unexpected while debugging.  A report is clean if it is for a program or has no findings. -/
inductive Ending
  | stopped (s : Stop)
  | listed
  | reported (clean : Bool)
  | failed (f : RunFailure)
  | uncaught (f : RunFailure)

/-- The exit status of a run: 2 if the command line cannot be followed, 1 after a failure and after a text report with
findings. -/
def Ending.status : Ending → Nat
  | .stopped (.misuse _) => 2
  | .stopped _ => 0
  | .listed => 0
  | .reported clean => if clean then 0 else 1
  | .failed _ => 1
  | .uncaught _ => 1

/-- What a run leaves behind; `written` is a file, as names from the root down, with its text. -/
structure Outcome where
  ending : Ending
  warnings : List Warning
  output : String
  errors : String
  written : Option (List String × String)

namespace Outcome

/-- An outcome that only prints. -/
def printed (ending : Ending) (output errors : String) : Outcome :=
  ⟨ending, [], output, errors, none⟩

/-- The outcome of a scan that failed. -/
def failure (o : Options) (warnings : List Warning) (f : RunFailure) : Outcome :=
  if o.debug && !f.isExpected then ⟨.uncaught f, warnings, "", f.message ++ "\n", none⟩
  else ⟨.failed f, warnings, "", "Error: " ++ f.message ++ "\n", none⟩

end Outcome

/-- The outcome of stopping before any work.  The help text itself is left out. -/
def Stop.outcome (s : Stop) : Outcome :=
  match s with
  | .misuse m => .printed (.stopped s) "" ("tfsentinel: error: " ++ m.message ++ "\n")
  | .help => .printed (.stopped s) "" ""
  | .version => .printed (.stopped s) ("tfsentinel " ++ toolVersion ++ "\n") ""

/-- The outcome of a scan. -/
def Options.scan (o : Options) (around : Surroundings) : Outcome :=
  let report := o.report around
  match report.outcome with
  | .error f => .failure o report.warnings f
  | .ok r =>
    let ending : Ending := .reported (o.format ≠ some .text || r.findings.isEmpty)
    match o.output with
    | none | some "" => ⟨ending, report.warnings, r.text ++ "\n", "", none⟩
    | some name => match around.files.target name with
      | .ok path => ⟨ending, report.warnings, "", "", some (path, r.text)⟩
      | .error e => .failure o report.warnings (.output name e)

/-- The outcome of a command line, for the early edition of its reader if no other one is named. -/
def run (around : Surroundings) (words : List String) (e : Edition := .early) : Outcome :=
  match Options.parse e words with
  | .error s => s.outcome
  | .ok o =>
    if o.listChecks then
      .printed .listed ("\n".intercalate (listing (.ofSelection ⟨[], o.minimum⟩)) ++ "\n") ""
    else o.scan around

end InfraAudit.CommandLine
