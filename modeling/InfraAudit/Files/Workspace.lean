import InfraAudit.Files.Path
import InfraAudit.Keyed
import InfraAudit.Text.Blank
import InfraAudit.Text.Lines
import InfraAudit.Text.Quoted

/-!
# InfraAudit.Files.Workspace — files and directories

A workspace is a tree of files below a place with an absolute name, and a current directory in it.  Of the files
outside of the tree only some are known.

* `Workspace.find`: the file or directory of a name.
* `Workspace.target`: where a report with a name would be written.
* `sources`: the configuration files below a directory.
-/

namespace InfraAudit.Files

open InfraAudit.Text

/-- A file with its bytes, or a directory with its entries. -/
inductive Node
  | file (bytes : ByteArray)
  | directory (entries : List (String × Node))

/-- Why a file cannot be used. -/
inductive FileError
  | missing
  | notDirectory
  | isDirectory
  | nameTooLong
  | nulInName
  deriving DecidableEq

namespace FileError

/-- The number of an error; a name with a NUL is refused before any file is looked for. -/
def number? : FileError → Option Nat
  | .missing => some 2
  | .notDirectory => some 20
  | .isDirectory => some 21
  | .nameTooLong => some 36
  | .nulInName => none

/-- The words for an error. -/
def message : FileError → String
  | .missing => "No such file or directory"
  | .notDirectory => "Not a directory"
  | .isDirectory => "Is a directory"
  | .nameTooLong => "File name too long"
  | .nulInName => "embedded null byte"

/-- The words for an error, with its number and the name of the file. -/
def text (e : FileError) (name : String) : String :=
  match e.number? with
  | some n => s!"[Errno {n}] {e.message}: " ++ quoted name
  | none => e.message

end FileError

/-- The greatest number of bytes in one part of a name. -/
def maxPartSize : Nat := 255

/-- The number of bytes that a whole name must not reach. -/
def nameSizeLimit : Nat := 4096

/-- Why no file can have a name, whatever files there are. -/
def nameError? (name : String) : Option FileError :=
  if name.toList.contains '\x00' then some .nulInName
  else if nameSizeLimit ≤ name.utf8ByteSize then some .nameTooLong
  else none

/-- A tree of files, the absolute name of its root, the current directory, as names from the root down, and what is
known of the files outside, from the root of all files down. -/
structure Workspace where
  root : Node
  location : String
  current : List String
  elsewhere : List (String × Node)

namespace Workspace

/-! ### Following names -/

/-- A place: the names and nodes on the way to it, innermost first.  The way to a place outside of the tree starts
with an empty name. -/
abbrev Trail := List (String × Node)

/-- The node at the end of a trail. -/
def nodeAt (w : Workspace) : Trail → Node
  | [] => w.root
  | (_, n) :: _ => n

/-- The place above another one.  The root of all files is its own parent, and nothing is known of the directory
above the tree. -/
def above (w : Workspace) : Trail → Trail
  | [] => if w.location = "/" then [] else [("", .directory [])]
  | [("", n)] => [("", n)]
  | _ :: below => below

/-- One step along a name. -/
def enter (w : Workspace) (trail : Trail) (name : String) : Except FileError Trail :=
  match w.nodeAt trail with
  | .file _ => .error .notDirectory
  | .directory entries =>
    if name = "" ∨ name = "." then .ok trail
    else if name = ".." then .ok (w.above trail)
    else if maxPartSize < name.utf8ByteSize then .error .nameTooLong
    else match entries.lookup name with
      | some n => .ok ((name, n) :: trail)
      | none => .error .missing

/-- The rest of a name that starts with the location of the root. -/
def below? (w : Workspace) (name : String) : Option String :=
  let place := if w.location.toList.getLast? = some '/' then w.location.toList else w.location.toList ++ ['/']
  if name = w.location then some ""
  else if place.isPrefixOf name.toList then some (String.ofList (name.toList.drop place.length))
  else none

/-- Where a name starts, and the steps to follow from there: the root of the tree or of all files if the name is
absolute, else the current directory. -/
def route (w : Workspace) (name : String) : Except FileError (Trail × List String) :=
  match nameError? name with
  | some e => .error e
  | none =>
    match w.below? name with
    | some rest => .ok ([], segments rest)
    | none =>
      if name = "" then .error .missing
      else if name.toList.head? = some '/' then .ok ([("", .directory w.elsewhere)], segments name)
      else .ok ([], w.current ++ segments name)

/-- The place of a name. -/
def find (w : Workspace) (name : String) : Except FileError Trail := do
  let (start, steps) ← w.route name
  steps.foldlM w.enter start

/-- The absolute name of the current directory. -/
def currentName (w : Workspace) : String :=
  (w.current.foldl Path.child (Path.parse w.location)).text

/-! ### Reading and writing -/

/-- The bytes of a file. -/
def read (w : Workspace) (name : String) : Except FileError ByteArray :=
  match w.find name with
  | .error e => .error e
  | .ok trail => match w.nodeAt trail with
    | .file bytes => .ok bytes
    | .directory _ => .error .isDirectory

/-- The lines of a file, if it can be read. -/
def lines? (w : Workspace) (name : String) : Option (List String) :=
  match w.read name with
  | .ok bytes => some ((splitLines (readText bytes).toList).map String.ofList)
  | .error _ => none

/-- The lines of a file, if it can be read; a name with a NUL cannot be asked for. -/
def sourceLines (w : Workspace) (name : String) : Except FileError (Option (List String)) :=
  if nameError? name = some .nulInName then .error .nulInName else .ok (w.lines? name)

/-- Whether a name is that of a file.  A name that is too long cannot be asked for. -/
def isFile (w : Workspace) (name : String) : Except FileError Bool :=
  match w.read name with
  | .ok _ => .ok true
  | .error .nameTooLong => .error .nameTooLong
  | .error _ => .ok false

/-- The names from the root down to a file that may be written in the directory at the end of a trail. -/
def fileIn (w : Workspace) (trail : Trail) (file : String) : Except FileError (List String) :=
  match w.nodeAt trail with
  | .file _ => .error .notDirectory
  | .directory entries =>
    if maxPartSize < file.utf8ByteSize then .error .nameTooLong
    else match entries.lookup file with
      | some (.directory _) => .error .isDirectory
      | _ => .ok (trail.reverse.map (·.1) ++ [file])

/-- The names from the root down to the file that writing to a name creates or changes; outside of the tree they start
with an empty name.  A name that ends in a slash or a dot is that of a directory. -/
def target (w : Workspace) (name : String) : Except FileError (List String) := do
  let (start, steps) ← w.route name
  let named := trimEnd (· == "") steps
  let file := named.getLast?.getD ""
  let trail ← named.dropLast.foldlM w.enter start
  let names ← w.fileIn trail file
  if named.length < steps.length ∨ file = "" ∨ file = "." ∨ file = ".." then .error .isDirectory else .ok names

end Workspace

/-! ### Configuration files -/

/-- Directories that hold no configuration of the project. -/
def skippedDirectories : List String :=
  [".terraform", ".git", ".svn", ".hg", "node_modules", "__pycache__", ".idea", ".vscode"]

/-- Whether a file with this name holds configuration. -/
def isSourceName (name : String) : Bool :=
  lowerLatin (extension name) == ".tf"

/-- The configuration files of a directory and the directories below it that are not skipped, as they are listed.  A
directory whose name is too long is not looked into. -/
def sourcesIn (place : Path) : List (String × Node) → List Path
  | [] => []
  | (name, .file _) :: rest =>
    (if isSourceName name then [place.child name] else []) ++ sourcesIn place rest
  | (name, .directory entries) :: rest =>
    (if skippedDirectories.contains name || (nameError? (place.child name).text).isSome then []
      else sourcesIn (place.child name) entries) ++ sourcesIn place rest

/-- The configuration files below a directory, in the order of their paths. -/
def sources (place : Path) (entries : List (String × Node)) : List Path :=
  (sourcesIn place entries).mergeSort fun a b => a.text ≤ b.text

/-- The entries with a node put at the end of a way of names; directories on the way are made. -/
def putNode (content : Node) : List String → List (String × Node) → List (String × Node)
  | [], entries => entries
  | [name], entries => Keyed.put name content entries
  | name :: names, entries =>
    let known := match entries.lookup name with
      | some (.directory es) => es
      | _ => []
    Keyed.put name (.directory (putNode content names known)) entries

end InfraAudit.Files
