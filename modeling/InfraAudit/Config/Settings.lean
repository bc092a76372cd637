import InfraAudit.Check.Registry
import InfraAudit.Files.Workspace
import InfraAudit.Yaml.Value

/-!
# InfraAudit.Config.Settings — which checks to run, from a settings file

* `merge`: excluded codes added, each once, in their normal form.
* `parse`: the selection that settings describe.
* `load`: the selection of a settings file; `find?`: the settings file of a directory.
-/

namespace InfraAudit.Config

open InfraAudit.Text InfraAudit.Files

/-- Why settings cannot be used. -/
inductive ConfigError
  | unreadable (path : String) (e : FileError)
  | unreachable (path : String) (e : FileError)
  | invalidYaml (path : String)
  | noValue (e : Yaml.Fault)
  | noMapping (source : String)
  | badExclude (source : String)
  | badMinimum (source : String)
  | unknownSeverity (source word : String)

namespace ConfigError

/-- What is said about settings that cannot be used. -/
def message : ConfigError → String
  | .unreadable path e => s!"Unable to read config file {path}: {e.message}"
  | .unreachable path e => e.text path
  | .invalidYaml path => s!"Invalid YAML in config file {path}"
  | .noValue e => e.message
  | .noMapping source => s!"{source}: expected a mapping at the top level"
  | .badExclude source => s!"{source}: exclude must be a list of check codes"
  | .badMinimum source => s!"{source}: minimum_severity must be a string"
  | .unknownSeverity source word => s!"{source}: " ++ Severity.unknownMessage word

/-- Whether an error is one that settings are expected to have. -/
def isExpected : ConfigError → Bool
  | .unreachable _ _ => false
  | .noValue _ => false
  | _ => true

end ConfigError

/-- The selection that excludes nothing. -/
def everything : Selection := ⟨[], none⟩

/-- The codes with one more in its normal form, unless it is blank or known. -/
def addCode (codes : List String) (code : String) : List String :=
  let c := normalCode code
  if c = "" ∨ codes.contains c then codes else codes ++ [c]

/-- The selection with more excluded codes. -/
def merge (s : Selection) (codes : List String) : Selection :=
  { s with exclude := codes.foldl addCode s.exclude }

/-- The codes in a text, between commas. -/
def splitCodes (s : String) : List String :=
  (s.toList.splitOn ',').map String.ofList

/-- The keys that settings may have. -/
def knownKeys : List String := ["exclude", "minimum_severity"]

/-- The value of a key of a mapping; nothing counts as no value. -/
def valueOf? (entries : List (Yaml.Scalar × Yaml.Value)) (key : String) : Option Yaml.Value :=
  (entries.find? fun e => e.1.same (.text key)).bind fun e => match e.2 with
    | .scalar .null => none
    | x => some x

/-- The text of a value that is a text. -/
def textOf? : Yaml.Value → Option String
  | .scalar (.text s) => some s
  | _ => none

/-- The excluded codes as given: a text with commas or a list. -/
def excludeOf (source : String) : Option Yaml.Value → Except ConfigError (List String)
  | none => .ok []
  | some (.scalar (.text s)) => .ok (splitCodes s)
  | some (.list items) =>
    if items.all fun x => (textOf? x).isSome then .ok (items.filterMap textOf?) else .error (.badExclude source)
  | some _ => .error (.badExclude source)

/-- The least severity as given. -/
def minimumOf (source : String) : Option Yaml.Value → Except ConfigError (Option Severity)
  | none => .ok none
  | some (.scalar (.text s)) => match Severity.ofName? s with
    | some x => .ok (some x)
    | none => .error (.unknownSeverity source s)
  | some _ => .error (.badMinimum source)

/-- The keys of a mapping that settings do not have, sorted. -/
def unknownKeys (entries : List (Yaml.Scalar × Yaml.Value)) : Except ConfigError (List String) := do
  let unknown := entries.filter fun e => !knownKeys.any fun k => e.1.same (.text k)
  let texts ← unknown.mapM fun e => e.1.toText.mapError .noValue
  return texts.mergeSort fun a b => a ≤ b

/-- The selection that settings from `source` describe, with a warning for each unknown key. -/
def parse (source : String) : Yaml.Value → Logged (Except ConfigError Selection)
  | .scalar .null => ⟨[], .ok everything⟩
  | .map entries =>
    match unknownKeys entries with
    | .error e => ⟨[], .error e⟩
    | .ok keys =>
      ⟨keys.map (.unknownKey source), do
        let exclude ← excludeOf source (valueOf? entries "exclude")
        let minimum ← minimumOf source (valueOf? entries "minimum_severity")
        return { merge everything exclude with minimum := minimum }⟩
  | _ => ⟨[], .error (.noMapping source)⟩

/-! ### Files -/

/-- The names of settings files, the preferred one first. -/
def filenames : List String := [".tfsentinel.yml", ".tfsentinel.yaml"]

/-- The settings file of a directory. -/
def find? (w : Workspace) (directory : String) : Except ConfigError (Option Path) :=
  (filenames.map (Path.parse directory).child).findM? fun p => (w.isFile p.text).mapError (.unreachable p.text)

/-- The depth to which settings are looked at: the entries of a mapping, and the items of a list in it. -/
def depth : Nat := 2

/-- The value of a settings file with the given bytes. -/
def valueOf (path : String) (bytes : ByteArray) : Except ConfigError Yaml.Value :=
  match Yaml.Value.read depth (.ofFile bytes) with
  | .error .malformed => .error (.invalidYaml path)
  | .error e => .error (.noValue e)
  | .ok x => .ok x

/-- The selection of a settings file. -/
def load (w : Workspace) (name : String) : Logged (Except ConfigError Selection) :=
  let path := (Path.parse name).text
  match w.read path with
  | .error .nulInName => ⟨[], .error (.unreachable path .nulInName)⟩
  | .error e => ⟨[], .error (.unreadable path e)⟩
  | .ok bytes =>
    match valueOf path bytes with
    | .error e => ⟨[], .error e⟩
    | .ok x => parse path x

end InfraAudit.Config
