/-!
# InfraAudit.Hcl.Cut — a text cut in two

Every scanner of the lexer takes a beginning of the text and leaves the rest.  `Of s k` says that nothing is lost:
`k.taken ++ k.rest = s`.
-/

namespace InfraAudit.Hcl

/-- The beginning of a text that was taken, and the rest. -/
structure Cut where
  taken : List Char
  rest : List Char
  deriving DecidableEq

namespace Cut

/-- The two parts make up the text `s`. -/
def Of (s : List Char) (k : Cut) : Prop :=
  k.taken ++ k.rest = s

/-- Nothing taken. -/
def none (s : List Char) : Cut := ⟨[], s⟩

/-- The cut before the first character outside the class `p`. -/
def span (p : Char → Bool) (s : List Char) : Cut := ⟨s.takeWhile p, s.dropWhile p⟩

/-- The cut after `n` characters. -/
def splitAt (n : Nat) (s : List Char) : Cut := ⟨s.take n, s.drop n⟩

/-- The cut with `s` taken before. -/
def onto (s : List Char) (k : Cut) : Cut := ⟨s ++ k.taken, k.rest⟩

theorem none_of (s : List Char) : Of s (none s) := rfl

theorem span_of (p : Char → Bool) (s : List Char) : Of s (span p s) :=
  List.takeWhile_append_dropWhile

theorem splitAt_of (n : Nat) (s : List Char) : Of s (splitAt n s) :=
  List.take_append_drop n s

theorem Of.onto {s : List Char} {k : Cut} (h : Of s k) (t : List Char) : Of (t ++ s) (k.onto t) := by
  simp [Of, Cut.onto, List.append_assoc, show k.taken ++ k.rest = s from h]

theorem Of.length {s : List Char} {k : Cut} (h : Of s k) : k.taken.length + k.rest.length = s.length := by
  rw [← List.length_append, show k.taken ++ k.rest = s from h]

end Cut

end InfraAudit.Hcl
