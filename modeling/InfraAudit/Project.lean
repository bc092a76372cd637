import InfraAudit.Files.Workspace
import InfraAudit.Hcl.Document
import InfraAudit.Ignore.Index

/-!
# InfraAudit.Project — the files read so far

A project grows by whole files: their blocks are added in order and the directives of their comments indexed.  The
files of a directory are added together.  What cannot be read leaves the project as it is.
-/

namespace InfraAudit

open InfraAudit.Hcl InfraAudit.Files

/-- The files read, their blocks in order, and their directives. -/
structure Project where
  files : List String
  blocks : List Block
  ignores : Ignore.Index

/-- Why input cannot be read. -/
inductive ReadError
  | noDirectory (path : String)
  | notDirectory (path : String)
  | unreadable (path : String) (e : FileError)
  | unreachable (path : String) (e : FileError)
  | invalid (filename : String) (f : Failure)

/-- The path that an unusable input has, and what is said about it. -/
def ReadError.input? : ReadError → Option (String × String)
  | .noDirectory path => some (path, "Directory does not exist")
  | .notDirectory path => some (path, "Not a directory")
  | .unreadable path e => some (path, s!"Unable to read file ({e.message})")
  | .unreachable _ _ => none
  | .invalid _ _ => none

/-- What is said about input that cannot be read. -/
def ReadError.message : ReadError → String
  | .noDirectory path => s!"Directory does not exist: {path}"
  | .notDirectory path => s!"Not a directory: {path}"
  | .unreadable path e => s!"Unable to read file ({e.message}): {path}"
  | .unreachable path e => e.text path
  | .invalid filename f => f.message filename

namespace Project

/-- No files. -/
def empty : Project := ⟨[], [], .empty⟩

/-- The project with one more file. -/
def add (p : Project) (filename : String) (d : Document) : Project :=
  ⟨p.files ++ [filename], p.blocks ++ d.blocks, p.ignores.addComments filename d.comments⟩

/-- The project with a file whose text is given. -/
def addSource (p : Project) (filename source : String) : Logged (Except Failure Project) :=
  let d := Document.parse filename source
  ⟨d.warnings, d.outcome.map (p.add filename)⟩

/-- The document of a file. -/
def readDocument (w : Workspace) (path : Path) : Logged (Except ReadError Document) :=
  match w.read path.text with
  | .error .nulInName => ⟨[], .error (.unreachable path.text .nulInName)⟩
  | .error e => ⟨[], .error (.unreadable path.text e)⟩
  | .ok bytes =>
    let d := Document.parse path.text (Text.readText bytes)
    ⟨d.warnings, d.outcome.mapError (.invalid path.text)⟩

/-- The documents of files, up to the first that cannot be read. -/
def readAll (w : Workspace) : List Path → Logged (Except ReadError (List (String × Document)))
  | [] => ⟨[], .ok []⟩
  | path :: rest =>
    let d := readDocument w path
    match d.outcome with
    | .error e => ⟨d.warnings, .error e⟩
    | .ok document =>
      let more := readAll w rest
      ⟨d.warnings ++ more.warnings, more.outcome.map ((path.text, document) :: ·)⟩

/-- The project with the given documents, one after the other. -/
def addAll (p : Project) (ds : List (String × Document)) : Project :=
  ds.foldl (fun p (filename, d) => p.add filename d) p

/-- The project with the given files, all of them or none. -/
def addFiles (p : Project) (w : Workspace) (paths : List Path) : Logged (Except ReadError Project) :=
  let ds := readAll w paths
  ⟨ds.warnings, ds.outcome.map p.addAll⟩

/-- The project with the file of the given name. -/
def addFile (p : Project) (w : Workspace) (name : String) : Logged (Except ReadError Project) :=
  p.addFiles w [Path.parse name]

/-- The configuration files below a directory, in the order of their paths. -/
def listing (w : Workspace) (path : Path) : Except ReadError (List Path) :=
  match w.find path.text with
  | .error .nameTooLong => .error (.unreachable path.text .nameTooLong)
  | .error _ => .error (.noDirectory path.text)
  | .ok trail => match w.nodeAt trail with
    | .file _ => .error (.notDirectory path.text)
    | .directory entries => .ok (sources path entries)

/-- The project with all configuration files below a directory, in the order of their paths. -/
def addDirectory (p : Project) (w : Workspace) (name : String) : Logged (Except ReadError Project) :=
  match listing w (Path.parse name) with
  | .error e => ⟨[], .error e⟩
  | .ok paths => p.addFiles w paths

end Project

end InfraAudit
