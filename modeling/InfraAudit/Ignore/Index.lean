import InfraAudit.Finding
import InfraAudit.Hcl.Token
import InfraAudit.Ignore.Directive
import InfraAudit.Keyed

/-!
# InfraAudit.Ignore.Index — which findings are suppressed

The index keeps one scope for each line of each file; a directive on a line that has one already is joined to it.
A finding is suppressed by a directive in its range or on the line before.
-/

namespace InfraAudit.Ignore

open InfraAudit.Text InfraAudit.Hcl

namespace Scope

/-- The scope of codes given as a list; no codes stand for every check. -/
def ofCodes (codes : List String) : Scope :=
  if codes.isEmpty then .everything else .only codes

/-- Two scopes on the same line: one that suppresses everything prevails. -/
def join : Scope → Scope → Scope
  | .only xs, .only ys => .only (xs ++ ys.filter fun y => !xs.contains y)
  | _, _ => .everything

/-- Whether the scope holds a code. -/
def holds (code : String) : Scope → Bool
  | .everything => true
  | .only codes => codes.contains code

/-- The codes of a scope; every check is written as no codes. -/
def codes : Scope → List String
  | .everything => []
  | .only codes => codes

end Scope

/-- The scopes of the lines of files. -/
structure Index where
  entries : List ((String × Int) × Scope)

namespace Index

/-- No directives. -/
def empty : Index := ⟨[]⟩

/-- The number of lines with directives. -/
def size (ix : Index) : Nat :=
  ix.entries.length

/-- The index with a directive on a line of a file. -/
def add (ix : Index) (filename : String) (line : Int) (scope : Scope) : Index :=
  let key := (filename, line)
  let joined := match ix.entries.lookup key with
    | some known => known.join scope
    | none => scope
  ⟨Keyed.put key joined ix.entries⟩

/-- The index with the directives in comments of a file, each on the last line of its comment. -/
def addComments (ix : Index) (filename : String) (comments : List Comment) : Index :=
  comments.foldl (fun ix c =>
    match directive? c.text with
    | some scope => ix.add filename c.endLine scope
    | none => ix) ix

/-- Whether a directive suppresses the finding: one on the line before its range or on a line of it. -/
def suppresses (ix : Index) (f : Finding) : Bool :=
  ix.entries.any fun ((filename, line), scope) =>
    filename == f.range.filename && f.range.startLine - 1 ≤ line && line ≤ f.range.endLine &&
      scope.holds (upper f.code)

/-- The lines with their codes, sorted by file and line, the codes sorted as well. -/
def rows (ix : Index) : List (String × Int × List String) :=
  let before (a b : (String × Int) × Scope) : Bool :=
    a.1.1 < b.1.1 || (a.1.1 == b.1.1 && a.1.2 ≤ b.1.2)
  (ix.entries.mergeSort before).map fun ((filename, line), scope) =>
    (filename, line, scope.codes.mergeSort fun a b => a ≤ b)

end Index

end InfraAudit.Ignore
