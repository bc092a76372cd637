import InfraAudit.CommandLine.Run
import Std.Time.Format
import Std.Time.Zoned

/-!
# InfraAudit.Main — the program

Reads what a run can look at into a workspace, runs, and prints and writes the outcome.
-/

namespace InfraAudit.Program

open InfraAudit.Files InfraAudit.CommandLine

/-- The names from the root down that a name stands for in the directory `current`. -/
def placeOf (current : List String) (name : String) : List String :=
  let start := if name.toList.head? = some '/' then [] else current
  (segments name).foldl (fun place part =>
    if part = "" ∨ part = "." then place else if part = ".." then place.dropLast else place ++ [part]) start

/-- The absolute name of a place. -/
def nameOf (place : List String) : String :=
  "/" ++ "/".intercalate place

/-- What stands at a place, down to `depth` levels.  The bytes of a file are read if `wanted` holds of its name. -/
def readNode (wanted : String → Bool) (depth : Nat) (place : List String) : IO (Option Node) := do
  let path := (← IO.currentDir) / nameOf place
  if ← path.isDir then
    match depth with
    | 0 => return some (.directory [])
    | depth + 1 =>
      let mut entries := []
      for entry in ← path.readDir do
        let name := entry.fileName
        if !skippedDirectories.contains name then
          if let some node ← readNode wanted depth (place ++ [name]) then
            entries := (name, node) :: entries
      return some (.directory entries)
  else if ← path.pathExists then
    if wanted (place.getLast?.getD "") then return some (.file (← IO.FS.readBinFile path))
    else return some (.file .empty)
  else return none

/-- The deepest nesting of directories that is read. -/
def maxDepth : Nat := 1000

/-- The files that a run with the given options can look at. -/
def filesFor (o : Options) (current : List String) : IO (List (String × Node)) := do
  let wanted (name : String) : Bool := isSourceName name || Config.filenames.contains name
  let scanned := placeOf current (o.directory.getD "")
  let named (name : Option String) : List String := (name.filter (· != "")).toList
  let settings := (named o.config).map fun name => (placeOf current name, 0)
  let written := (named o.output).map fun name => ((placeOf current name).dropLast, 1)
  let mut entries := []
  for (place, depth) in written do
    if let some node ← readNode (fun _ => false) depth place then entries := putNode node place entries
  if let some node ← readNode wanted maxDepth scanned then entries := putNode node scanned entries
  for (place, depth) in settings do
    if let some node ← readNode (fun _ => true) depth place then entries := putNode node place entries
  return entries

/-- The time as it stands in reports. -/
def timeText : IO String := do
  let now := Std.Time.DateTime.ofTimestampWithZone (← Std.Time.Timestamp.now) Std.Time.TimeZone.UTC
  return now.format "uuuu-MM-dd'T'HH:mm:ss'Z'"

/-- Runs the tool on the words of the command line; gives the exit status. -/
def execute (words : List String) : IO UInt32 := do
  let current := placeOf [] (← IO.currentDir).toString
  let root ← match Options.parse .current words with
    | .ok o => filesFor o current
    | .error _ => pure []
  let around : Surroundings :=
    ⟨⟨.directory root, "/", current, []⟩, ← (← IO.getStdout).isTty, ← timeText⟩
  let outcome := run around words .current
  for w in outcome.warnings do IO.eprintln ("WARNING " ++ w.message)
  IO.print outcome.output
  IO.eprint outcome.errors
  if let some (place, text) := outcome.written then IO.FS.writeFile (nameOf place) text
  return outcome.ending.status.toUInt32

end InfraAudit.Program

/-- The program. -/
def main (words : List String) : IO UInt32 :=
  InfraAudit.Program.execute words
