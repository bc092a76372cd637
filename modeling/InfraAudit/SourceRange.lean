/-!
# InfraAudit.SourceRange — whole lines of one file

A range has a file name, a first line of at least 1 and a last line not before it; `make?` says which of the three
fails first.
-/

namespace InfraAudit

/-- A span of whole lines of a file, counted from 1, both ends included. -/
structure SourceRange where
  filename : String
  startLine : Nat
  endLine : Nat
  filename_ne : filename ≠ ""
  one_le_start : 1 ≤ startLine
  start_le_end : startLine ≤ endLine
  deriving DecidableEq

/-- Why a range cannot be. -/
inductive RangeError
  | emptyFilename
  | startBelowOne (start : Int)
  | endBeforeStart (last start : Int)
  deriving DecidableEq

/-- What is said about an impossible range. -/
def RangeError.message : RangeError → String
  | .emptyFilename => "Range filename must not be empty"
  | .startBelowOne start => s!"Range start line must be >= 1, got {start}"
  | .endBeforeStart last start => s!"Range end line {last} is before start line {start}"

namespace SourceRange

/-- The range of the lines from `start` to `last`. -/
def make? (filename : String) (start last : Int) : Except RangeError SourceRange :=
  if hf : filename = "" then .error .emptyFilename
  else if hs : start < 1 then .error (.startBelowOne start)
  else if hl : last < start then .error (.endBeforeStart last start)
  else .ok ⟨filename, start.toNat, last.toNat, hf, by omega, by omega⟩

/-- The range with another last line. -/
def close? (r : SourceRange) (last : Int) : Except RangeError SourceRange :=
  make? r.filename r.startLine last

/-- Whether the line belongs to the range. -/
def containsLine (r : SourceRange) (line : Int) : Bool :=
  r.startLine ≤ line && line ≤ r.endLine

/-- The file with the line, or with the first and the last line. -/
def text (r : SourceRange) : String :=
  if r.startLine = r.endLine then s!"{r.filename}:{r.startLine}"
  else s!"{r.filename}:{r.startLine}-{r.endLine}"

end SourceRange

end InfraAudit
