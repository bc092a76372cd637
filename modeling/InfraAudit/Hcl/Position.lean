/-!
# InfraAudit.Hcl.Position — lines and columns

The position after a text is a fold over its characters: a newline starts the next line, any other character moves
one column on.
-/

namespace InfraAudit.Hcl

/-- A line and a column, both counted from 1. -/
structure Position where
  line : Nat
  column : Nat
  deriving DecidableEq, Inhabited

namespace Position

/-- The position of the first character. -/
def start : Position := ⟨1, 1⟩

/-- The position after the character `c`. -/
def next (p : Position) (c : Char) : Position :=
  if c == '\n' then ⟨p.line + 1, 1⟩ else ⟨p.line, p.column + 1⟩

/-- The position after a text. -/
def after (p : Position) (s : List Char) : Position :=
  s.foldl next p

@[simp] theorem after_nil (p : Position) : p.after [] = p := rfl

@[simp] theorem after_cons (p : Position) (c : Char) (s : List Char) : p.after (c :: s) = (p.next c).after s := rfl

theorem after_append (p : Position) (s t : List Char) : p.after (s ++ t) = (p.after s).after t :=
  List.foldl_append

end Position

end InfraAudit.Hcl
