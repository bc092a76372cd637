import InfraAudit.Text.Blank
import InfraAudit.Text.Word

/-!
# InfraAudit.CommandLine.Switch — options and the words that name them

* `Switch`: the options; `spelled`: their spellings, in the order in which they are listed.
* `Edition`: which reader of command lines is there.
* `Word.read`: what a word of the command line is: an operand, an option or a word that looks like one.

A long option may be shortened as long as one spelling fits, and its value may follow an equals sign.  The value of
an option of one letter may follow at once.
-/

namespace InfraAudit.CommandLine

open InfraAudit.Text

/-- An option of the command line. -/
inductive Switch
  | help
  | format
  | output
  | plain
  | config
  | exclude
  | minimum
  | listChecks
  | verbose
  | debug
  | jobs
  | version
  deriving DecidableEq

namespace Switch

/-- All options. -/
def all : List Switch :=
  [.help, .format, .output, .plain, .config, .exclude, .minimum, .listChecks, .verbose, .debug, .jobs, .version]

/-- The ways to write an option. -/
def spellings : Switch → List String
  | .help => ["-h", "--help"]
  | .format => ["-f", "--format"]
  | .output => ["-o", "--output"]
  | .plain => ["--no-colour", "--no-color"]
  | .config => ["-c", "--config"]
  | .exclude => ["-e", "--exclude"]
  | .minimum => ["--minimum-severity"]
  | .listChecks => ["--list-checks"]
  | .verbose => ["--verbose"]
  | .debug => ["--debug"]
  | .jobs => ["-j", "--jobs"]
  | .version => ["-v", "--version"]

/-- Whether an option has a value. -/
def takesValue : Switch → Bool
  | .format | .output | .config | .exclude | .minimum | .jobs => true
  | _ => false

/-- An option in messages. -/
def title (s : Switch) : String :=
  "/".intercalate s.spellings

/-- All spellings with their options. -/
def spelled : List (String × Switch) :=
  all.flatMap fun s => s.spellings.map (·, s)

/-- The option with the given spelling. -/
def ofSpelling? (s : String) : Option Switch :=
  spelled.lookup s

/-- The option of one letter. -/
def ofLetter? (c : Char) : Option Switch :=
  ofSpelling? (String.ofList ['-', c])

/-- The spellings that start with `s`. -/
def completions (s : String) : List (String × Switch) :=
  spelled.filter fun x => s.toList.isPrefixOf x.1.toList

end Switch

/-- The edition of the reader of command lines, which is a part of the platform and differs between its releases.  For
the early one, an option whose value is the separator has no value, and what stands behind the letter of an option that
takes none is more letters, even behind an equals sign. -/
inductive Edition
  | early
  | current
  deriving DecidableEq

/-- A value in the word of its option: none, behind an equals sign, or joined to the letter of the option. -/
inductive Attached
  | absent
  | marked (value : String)
  | joined (first : Char) (rest : List Char)

/-- What follows the letter of an option in its word: letters and a value at once, or a value behind an equals sign. -/
def Attached.toLetter (e : Edition) : List Char → Attached
  | [] => .absent
  | ['='] => .marked ""
  | '=' :: c :: r => match e with
    | .early => .joined c r
    | .current => .marked (String.ofList (c :: r))
  | c :: r => .joined c r

/-- A word of the command line. -/
inductive Word
  | operand (text : String)
  | switch (s : Switch) (value : Attached)
  | unknown (text : String)

namespace Word

/-- Whether the text behind a minus sign makes it a negative number, with or without a point; a line end may follow. -/
def isNumber (s : List Char) : Bool :=
  let s := if s.getLast? = some '\n' then s.dropLast else s
  match s.dropWhile isDecimal with
  | [] => !s.isEmpty
  | '.' :: r => !r.isEmpty && r.all isDecimal
  | _ => false

/-- A word that starts like an option and is none: a number, a text with spaces in it, or an unknown option. -/
def unnamed (w : String) : Word :=
  if isNumber (w.toList.drop 1) || w.toList.contains ' ' then .operand w else .unknown w

/-- The word cut at its first equals sign. -/
def cutMark (w : String) : String × Option (List Char) :=
  let name := String.ofList (w.toList.takeWhile (· != '='))
  match w.toList.dropWhile (· != '=') with
  | _ :: value => (name, some value)
  | [] => (name, none)

/-- The value behind the equals sign of a long option. -/
def toName (value : Option (List Char)) : Attached :=
  match value with
  | some v => .marked (String.ofList v)
  | none => .absent

/-- The readings of a word as an option, each with the spelling that it stands for. -/
def candidates (e : Edition) (w : String) : List (String × Word) :=
  let (name, value) := cutMark w
  match Switch.ofSpelling? w with
  | some s => [(w, .switch s .absent)]
  | none =>
    match w.toList with
    | '-' :: '-' :: _ => match Switch.ofSpelling? name with
      | some s => [(name, .switch s (toName value))]
      | none => (Switch.completions name).map fun (spelling, s) => (spelling, .switch s (toName value))
    | '-' :: c :: r =>
      ((Switch.ofLetter? c).map fun s => (String.ofList ['-', c], .switch s (.toLetter e r))).toList
    | _ => []

/-- What a word is; if it may be several options, their spellings. -/
def read (e : Edition) (w : String) : Except (List String) Word :=
  if w.toList.head? ≠ some '-' ∨ w = "-" then .ok (.operand w)
  else match candidates e w with
    | [] => .ok (unnamed w)
    | [(_, x)] => .ok x
    | several => .error (several.map (·.1))

end Word

end InfraAudit.CommandLine
