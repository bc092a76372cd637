import InfraAudit.Text.Case

/-!
# InfraAudit.Files.Path — names of files

A path is read without its empty and `.` parts; `..` stays.  Two slashes at the start are kept as they are, any
other number of them is one.
-/

namespace InfraAudit.Files

open InfraAudit.Text

/-- Where a path starts: at the current directory, or at a root written with one or with two slashes. -/
inductive Anchor
  | here
  | slash
  | twoSlashes
  deriving DecidableEq

/-- The slashes at the start of a path. -/
def Anchor.text : Anchor → String
  | .here => ""
  | .slash => "/"
  | .twoSlashes => "//"

/-- The name of a file or a directory. -/
structure Path where
  anchor : Anchor
  parts : List String
  deriving DecidableEq

/-- The parts of a name between slashes. -/
def segments (s : String) : List String :=
  (s.toList.splitOn '/').map String.ofList

namespace Path

/-- The anchor of a name. -/
def anchorOf (s : String) : Anchor :=
  match (s.toList.takeWhile (· == '/')).length with
  | 0 => .here
  | 2 => .twoSlashes
  | _ => .slash

/-- The path that a name stands for. -/
def parse (s : String) : Path :=
  ⟨anchorOf s, (segments s).filter fun p => p != "" && p != "."⟩

/-- The text of a path. -/
def text (p : Path) : String :=
  if p.anchor = .here ∧ p.parts = [] then "." else p.anchor.text ++ "/".intercalate p.parts

/-- The path of an entry of a directory. -/
def child (p : Path) (name : String) : Path :=
  { p with parts := p.parts ++ [name] }

/-- The path as seen from the directory `base`, if it lies below it. -/
def relativeTo? (p base : Path) : Option Path :=
  if p.anchor = base.anchor ∧ base.parts.isPrefixOf p.parts then some ⟨.here, p.parts.drop base.parts.length⟩
  else none

end Path

/-- The end of a file name from its last dot on; a dot at either end of the name starts none. -/
def extension (name : String) : String :=
  let letters := name.toList.reverse.takeWhile (· != '.')
  let stem := name.toList.reverse.drop (letters.length + 1)
  if letters = [] ∨ stem = [] then "" else String.ofList ('.' :: letters.reverse)

end InfraAudit.Files
