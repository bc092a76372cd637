/-!
# InfraAudit.Text.CharRange — tables of code points

A character class is a list of ranges in increasing order; `inRanges` is membership.
-/

namespace InfraAudit.Text

/-- The code points from the first to the second, both included. -/
abbrev CharRange := Nat × Nat

/-- Membership in a class whose ranges are given in increasing order. -/
def inRanges (n : Nat) : List CharRange → Bool
  | [] => false
  | (first, last) :: rest => if n < first then false else n ≤ last || inRanges n rest

end InfraAudit.Text
