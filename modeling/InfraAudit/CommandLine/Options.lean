import InfraAudit.CommandLine.Switch
import InfraAudit.Report.Format

/-!
# InfraAudit.CommandLine.Options — what the command line asks for

* `Misuse`: why a command line cannot be followed, with `Misuse.message`.
* `Options.parse`: the options that the words set, or why reading them ends early.

All words are told apart first.  Then they take effect from left to right; the first operand is the directory.  Behind
the separator `--` every word is an operand.  In the word of an option the separator is a value like any other.  For the
early edition of the reader, an option with this value has none: no file, no severity, and a failure of the run where a
value is needed.
-/

namespace InfraAudit.CommandLine

open InfraAudit.Text InfraAudit.Report

/-- What the command line sets.  Where the early edition leaves an option without its value, `format` is none, `jobs` is
false, and an item of `exclude` is none. -/
structure Options where
  directory : Option String
  format : Option Format
  output : Option String
  plain : Bool
  config : Option String
  exclude : List (Option String)
  minimum : Option Severity
  listChecks : Bool
  verbose : Bool
  debug : Bool
  jobs : Bool
  deriving DecidableEq

/-- What holds without any word. -/
def Options.initial : Options :=
  ⟨none, some .text, none, false, none, [], none, false, false, false, true⟩

/-- Why a command line cannot be followed. -/
inductive Misuse
  | ambiguous (word : String) (spellings : List String)
  | missingValue (s : Switch)
  | unusedValue (s : Switch) (value : String)
  | badChoice (s : Switch) (value : String) (choices : List String)
  | badInteger (s : Switch) (value : String)
  | leftOver (words : List String)
  deriving DecidableEq

/-- What is said about a command line that cannot be followed. -/
def Misuse.message : Misuse → String
  | .ambiguous word spellings => s!"ambiguous option: {word} could match " ++ ", ".intercalate spellings
  | .missingValue s => s!"argument {s.title}: expected one argument"
  | .unusedValue s value => s!"argument {s.title}: ignored explicit argument " ++ quoted value
  | .badChoice s value choices =>
    s!"argument {s.title}: invalid choice: " ++ quoted value ++ " (choose from " ++
      ", ".intercalate (choices.map quoted) ++ ")"
  | .badInteger s value => s!"argument {s.title}: invalid int value: " ++ quoted value
  | .leftOver words => "unrecognized arguments: " ++ " ".intercalate words

/-- Why reading the words ends early. -/
inductive Stop
  | misuse (m : Misuse)
  | help
  | version
  deriving DecidableEq

/-! ### The words of one option -/

/-- The word that ends the options. -/
def separator : String := "--"

/-- An option with its value; there is none if the option takes none, or if it was taken away. -/
structure Setting where
  switch : Switch
  value : Option String

/-- An option set to a text. -/
def Setting.of (e : Edition) (s : Switch) (value : String) : Setting :=
  ⟨s, if e = .early ∧ value = separator then none else some value⟩

/-- What one word says: settings, and an option that awaits its value. -/
structure Cluster where
  settings : List Setting
  awaiting : Option Switch

namespace Cluster

/-- An option whose word ends. -/
def bare (s : Switch) : Cluster :=
  if s.takesValue then ⟨[], some s⟩ else ⟨[⟨s, none⟩], none⟩

/-- An option with a value behind an equals sign. -/
def marked (e : Edition) (s : Switch) (value : String) : Except Misuse Cluster :=
  if s.takesValue then .ok ⟨[.of e s value], none⟩ else .error (.unusedValue s value)

/-- A cluster with an option in front that takes no value. -/
def behind (s : Switch) (c : Cluster) : Cluster :=
  { c with settings := ⟨s, none⟩ :: c.settings }

/-- An option of one letter and what is joined to it: its value or further letters.  What the current edition cannot
read as a letter is left over, and the option before it ends the reading before that is looked at. -/
def joined (e : Edition) (s : Switch) (first : Char) (rest : List Char) : Except Misuse Cluster :=
  let value := String.ofList (first :: rest)
  if s.takesValue then .ok ⟨[.of e s value], none⟩
  else match Switch.ofLetter? first with
    | none => if e = .current ∧ first ≠ '-' then .ok (bare s) else .error (.unusedValue s value)
    | some t => match rest with
      | [] => .ok (behind s (bare t))
      | c :: r =>
        if e = .current ∧ c = '=' then (marked e t (String.ofList r)).map (behind s)
        else (joined e t c r).map (behind s)

/-- What the word of an option says. -/
def of (e : Edition) (s : Switch) : Attached → Except Misuse Cluster
  | .absent => .ok (bare s)
  | .marked value => marked e s value
  | .joined first rest => joined e s first rest

end Cluster

/-! ### Effects -/

/-- The number of digits that a whole number may have. -/
def maxDigits : Nat := 4300

/-- Whether a text is a whole number: decimal digits of any script with single underscores between them, a sign in
front and white space around it.  The information separators are no white space here. -/
def isInteger (s : String) : Bool :=
  let body := trim (fun c => isBlank c && !(0x1c ≤ c.toNat && c.toNat ≤ 0x1f)) s.toList
  let digits := match body with
    | '+' :: r => r
    | '-' :: r => r
    | r => r
  (digits.splitOn '_').all (fun g => !g.isEmpty && g.all isDecimal) && (digits.filter (· != '_')).length ≤ maxDigits

/-- The item with the given name. -/
def choose {α : Type} (s : Switch) (items : List α) (name : α → String) (value : String) : Except Stop α :=
  match items.find? fun x => name x == value with
  | some x => .ok x
  | none => .error (.misuse (.badChoice s value (items.map name)))

/-- The options after one more setting.  The number of jobs is checked; every number gives the same report. -/
def Options.set (o : Options) (x : Setting) : Except Stop Options :=
  match x.switch, x.value with
  | .help, _ => .error .help
  | .version, _ => .error .version
  | .plain, _ => .ok { o with plain := true }
  | .listChecks, _ => .ok { o with listChecks := true }
  | .verbose, _ => .ok { o with verbose := true }
  | .debug, _ => .ok { o with debug := true }
  | .format, none => .ok { o with format := none }
  | .format, some v => (choose .format Format.all Format.name v).map fun f => { o with format := some f }
  | .minimum, none => .ok { o with minimum := none }
  | .minimum, some v => (choose .minimum Severity.all Severity.name v).map fun s => { o with minimum := some s }
  | .jobs, none => .ok { o with jobs := false }
  | .jobs, some v => if isInteger v then .ok { o with jobs := true } else .error (.misuse (.badInteger .jobs v))
  | .output, v => .ok { o with output := v }
  | .config, v => .ok { o with config := v }
  | .exclude, v => .ok { o with exclude := o.exclude ++ [v] }

/-! ### All words -/

/-- The options so far and the words that nothing can be done with. -/
structure Reading where
  options : Options
  leftOver : List String

namespace Reading

/-- The reading with more words left over. -/
def leave (r : Reading) (words : List String) : Reading :=
  { r with leftOver := r.leftOver ++ words }

/-- The reading after an operand: the first one is the directory. -/
def operand (r : Reading) (w : String) : Reading :=
  if r.options.directory.isNone then { r with options := { r.options with directory := some w } } else r.leave [w]

/-- The reading after the settings of a word. -/
def set (r : Reading) (settings : List Setting) : Except Stop Reading :=
  (settings.foldlM Options.set r.options).map fun o => { r with options := o }

/-- The reading after the words behind the separator.  The separator is left over itself if the directory is known
already, unless the word before it, `direct`, gave it. -/
def behindSeparator (r : Reading) (direct : Bool) (words : List String) : Reading :=
  if r.options.directory.isSome && !direct then r.leave (separator :: words) else words.foldl operand r

/-- The reading after all words; `behind` are those behind the separator, if there is one. -/
def follow (e : Edition) (behind : Option (List String)) (direct : Bool) (r : Reading) :
    List Word → Except Stop Reading
  | [] => .ok ((behind.map (r.behindSeparator direct)).getD r)
  | .operand w :: rest => follow e behind r.options.directory.isNone (r.operand w) rest
  | .unknown w :: rest => follow e behind false (r.leave [w]) rest
  | .switch s value :: rest =>
    match Cluster.of e s value with
    | .error m => .error (.misuse m)
    | .ok ⟨settings, none⟩ => (r.set settings).bind fun r => follow e behind false r rest
    | .ok ⟨settings, some t⟩ =>
      match rest with
      | .operand w :: rest => (r.set (settings ++ [.of e t w])).bind fun r => follow e behind false r rest
      | _ => .error (.misuse (.missingValue t))

end Reading

/-- The words before the separator, and those behind it if it is there. -/
def cutSeparator (words : List String) : List String × Option (List String) :=
  (words.takeWhile (· != separator), match words.dropWhile (· != separator) with
    | _ :: behind => some behind
    | [] => none)

/-- A word as it is told apart from others. -/
def readWord (e : Edition) (w : String) : Except Stop Word :=
  match Word.read e w with
  | .ok x => .ok x
  | .error spellings => .error (.misuse (.ambiguous w spellings))

/-- The options that the words set. -/
def Options.parse (e : Edition) (words : List String) : Except Stop Options := do
  let (before, behind) := cutSeparator words
  let r ← Reading.follow e behind false ⟨.initial, []⟩ (← before.mapM (readWord e))
  if r.leftOver.isEmpty then return r.options else throw (.misuse (.leftOver r.leftOver))

end InfraAudit.CommandLine
