/-!
# InfraAudit.Text.Blank — white space and trimming

* `isBlank`: the Unicode white space, the information separators U+001C to U+001F included.
* `trimStart`, `trimEnd`, `trim`: elements of a class removed at the ends of a list.
-/

namespace InfraAudit.Text

/-- White space: the Unicode property and the four information separators. -/
def isBlank (c : Char) : Bool :=
  let n := c.toNat
  (9 ≤ n && n ≤ 13) || (0x1c ≤ n && n ≤ 0x20) || n == 0x85 || n == 0xa0 || n == 0x1680 ||
    (0x2000 ≤ n && n ≤ 0x200a) || n == 0x2028 || n == 0x2029 || n == 0x202f || n == 0x205f || n == 0x3000

/-- A space or a tab: what indents a line. -/
def isIndent (c : Char) : Bool :=
  c == ' ' || c == '\t'

section Trim

variable {α : Type}

/-- The list without its leading elements of the class `p`. -/
def trimStart (p : α → Bool) (s : List α) : List α :=
  s.dropWhile p

/-- The list without its trailing elements of the class `p`. -/
def trimEnd (p : α → Bool) (s : List α) : List α :=
  (s.reverse.dropWhile p).reverse

/-- The list without the elements of the class `p` at its two ends. -/
def trim (p : α → Bool) (s : List α) : List α :=
  trimEnd p (trimStart p s)

theorem length_trimEnd_le (p : α → Bool) (s : List α) : (trimEnd p s).length ≤ s.length := by
  have h := (List.dropWhile_sublist p (l := s.reverse)).length_le
  simpa [trimEnd] using h

theorem length_trim_le (p : α → Bool) (s : List α) : (trim p s).length ≤ s.length :=
  Nat.le_trans (length_trimEnd_le p _) (List.dropWhile_sublist p).length_le

end Trim

/-- The text without white space at its two ends. -/
def strip (s : String) : String :=
  String.ofList (trim isBlank s.toList)

/-- The code points of white space. -/
def blankCodes : List Nat :=
  List.range' 9 5 ++ List.range' 0x1c 5 ++ List.range' 0x2000 11 ++
    [0x85, 0xa0, 0x1680, 0x2028, 0x2029, 0x202f, 0x205f, 0x3000]

/-- What holds of the characters with these code points holds of all white space. -/
theorem forall_isBlank {p : Char → Prop} (h : ∀ n ∈ blankCodes, p (Char.ofNat n)) {c : Char} (hc : isBlank c = true) :
    p c := by
  have hmem : c.toNat ∈ blankCodes := by
    simp only [isBlank, Bool.or_eq_true, Bool.and_eq_true, decide_eq_true_eq, beq_iff_eq] at hc
    simp only [blankCodes, List.mem_append, List.mem_range'_1, List.mem_cons, List.not_mem_nil, or_false]
    omega
  have hcode := h _ hmem
  rwa [Char.ofNat_toNat] at hcode

end InfraAudit.Text
