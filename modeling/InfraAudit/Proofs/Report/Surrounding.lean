import InfraAudit.Report.Context
import Mathlib.Data.Nat.Notation
import Mathlib.Tactic.Common

/-!
# InfraAudit.Proofs.Report.Surrounding — the lines shown for a range

* `firstShown`, `lastShown`: the numbers between which lines are shown.  `highlight_eq`: the lines shown are the lines
  of the file between them.
* `Surrounds`: what the lines shown for a range have to be; `JustPast`: the range starts behind the end of the file, but
  the lines in front of it reach into the file.
* `highlight_surrounds`: the lines shown are what they have to be, except for a range that is just past the end.
-/

namespace InfraAudit.Report

/-! ### What is shown -/

/-- The number of the first line to show. -/
def firstShown (r : SourceRange) (padding : ℕ) : ℕ :=
  max 1 (r.startLine - padding)

/-- The number of the last line to show in a file of `count` lines. -/
def lastShown (r : SourceRange) (count padding : ℕ) : ℕ :=
  min count (r.endLine + padding)

variable {r : SourceRange} {lines : List String} {note : String} {padding : ℕ}

theorem window?_natCast (r : SourceRange) (count padding : ℕ) :
    window? r count padding =
      if lastShown r count padding < firstShown r padding then none
      else some (firstShown r padding, lastShown r count padding) := by
  have hfirst : max 1 ((r.startLine : Int) - padding) = firstShown r padding := by
    rw [firstShown]
    omega
  have hlast : min (count : Int) (r.endLine + padding) = lastShown r count padding := by
    rw [lastShown]
    omega
  simp only [window?, hfirst, hlast, Int.ofNat_lt, Int.toNat_natCast]

/-- A line of the file as it is shown for a range. -/
def shownLine (r : SourceRange) (note : String) (line : String × ℕ) : SourceLine :=
  ⟨line.2, line.1, r.containsLine line.2, if line.2 = r.startLine then note else ""⟩

/-- The lines shown are those of the file between the two numbers; with these the other way round there are none. -/
theorem highlight_eq (r : SourceRange) (lines : List String) (note : String) (padding : ℕ) :
    highlight r lines note padding =
      (((lines.take (lastShown r lines.length padding)).drop (firstShown r padding - 1)).zipIdx
        (firstShown r padding)).map (shownLine r note) := by
  rw [highlight, window?_natCast]
  split
  · next h =>
    split at h
    · next hlt =>
      have hshort : (lines.take (lastShown r lines.length padding)).length ≤ firstShown r padding - 1 := by
        rw [List.length_take]
        omega
      rw [List.drop_eq_nil_of_le hshort, List.zipIdx_nil, List.map_nil]
    · cases h
  · next h =>
    split at h
    · cases h
    · cases h
      rfl

theorem map_number_highlight (r : SourceRange) (lines : List String) (note : String) (padding : ℕ) :
    (highlight r lines note padding).map (·.number) =
      List.range' (firstShown r padding) (lastShown r lines.length padding + 1 - firstShown r padding) := by
  have hlength : min (lastShown r lines.length padding) lines.length - (firstShown r padding - 1) =
      lastShown r lines.length padding + 1 - firstShown r padding := by
    rw [lastShown, firstShown]
    omega
  have hnumber : (fun l => l.number) ∘ shownLine r note = Prod.snd := rfl
  rw [highlight_eq, List.map_map, hnumber, List.zipIdx_map_snd, List.length_drop, List.length_take, hlength]

theorem mem_highlight {l : SourceLine} (hl : l ∈ highlight r lines note padding) :
    lines[l.number - 1]? = some l.text ∧ l.highlighted = r.containsLine l.number ∧
      l.note = if l.number = r.startLine then note else "" := by
  rw [highlight_eq, List.mem_map] at hl
  obtain ⟨⟨text, number⟩, hmem, rfl⟩ := hl
  obtain ⟨hle, htext⟩ := List.mk_mem_zipIdx_iff_le_and_getElem?_sub.1 hmem
  have hindex : firstShown r padding - 1 + (number - firstShown r padding) = number - 1 := by
    rw [firstShown] at hle ⊢
    omega
  rw [List.getElem?_drop, hindex, List.getElem?_take] at htext
  split at htext
  · exact ⟨htext, rfl, rfl⟩
  · cases htext

theorem highlight_eq_nil_iff (r : SourceRange) (lines : List String) (note : String) (padding : ℕ) :
    highlight r lines note padding = [] ↔ lines = [] ∨ lines.length + padding < r.startLine := by
  have h1 := r.one_le_start
  have h2 := r.start_le_end
  rw [← List.map_eq_nil_iff (f := (·.number)), map_number_highlight, List.range'_eq_nil_iff, ← List.length_eq_zero_iff,
    lastShown, firstShown]
  omega

theorem start_mem_highlight_iff (r : SourceRange) (lines : List String) (note : String) (padding : ℕ) :
    r.startLine ∈ (highlight r lines note padding).map (·.number) ↔ r.startLine ≤ lines.length := by
  have h1 := r.one_le_start
  have h2 := r.start_le_end
  rw [map_number_highlight, List.mem_range'_1, lastShown, firstShown]
  omega

/-! ### What has to be shown -/

/-- What the lines shown for a range have to be: none if the file is empty or the range starts past its end, else the
lines from the padding before the range to the padding behind it, as far as the file goes, those of the range marked and
its first line, which is among them, with the note. -/
structure Surrounds (r : SourceRange) (lines : List String) (note : String) (padding : ℕ) (shown : List SourceLine) :
    Prop where
  eq_nil_iff : shown = [] ↔ lines = [] ∨ lines.length < r.startLine
  numbers : shown ≠ [] → shown.map (·.number) =
    List.range' (max 1 (r.startLine - padding))
      (min lines.length (r.endLine + padding) + 1 - max 1 (r.startLine - padding))
  text : ∀ l ∈ shown, lines[l.number - 1]? = some l.text
  marked_iff : ∀ l ∈ shown, l.highlighted = true ↔ r.startLine ≤ l.number ∧ l.number ≤ r.endLine
  start_mem : shown ≠ [] → r.startLine ∈ shown.map (·.number)
  note_eq : ∀ l ∈ shown, l.note = if l.number = r.startLine then note else ""

/-- The range starts past the end of the file, but not by more than the padding. -/
def JustPast (r : SourceRange) (lines : List String) (padding : ℕ) : Prop :=
  lines ≠ [] ∧ lines.length < r.startLine ∧ r.startLine ≤ lines.length + padding

theorem containsLine_iff {n : ℕ} : r.containsLine n = true ↔ r.startLine ≤ n ∧ n ≤ r.endLine := by
  simp [SourceRange.containsLine]

theorem surrounds_of_not_justPast (h : ¬ JustPast r lines padding) :
    Surrounds r lines note padding (highlight r lines note padding) where
  eq_nil_iff := by
    rw [highlight_eq_nil_iff]
    simp only [JustPast, not_and, Nat.not_le] at h
    by_cases hlines : lines = []
    · simp [hlines]
    · have := h hlines
      simp only [hlines, false_or]
      omega
  numbers _ := map_number_highlight r lines note padding
  text _ hl := (mem_highlight hl).1
  marked_iff l hl := by rw [(mem_highlight hl).2.1, containsLine_iff]
  start_mem hne := by
    rw [start_mem_highlight_iff]
    by_contra hstart
    refine hne ((highlight_eq_nil_iff ..).2 (or_iff_not_imp_left.2 fun hlines => ?_))
    by_contra hpast
    exact h ⟨hlines, by omega, by omega⟩
  note_eq _ hl := (mem_highlight hl).2.2

/-- The lines shown for a range are what they have to be if and only if the range is not just past the end of the file.
If it is, the last lines of the file are shown all the same, without a mark and without the note. -/
theorem highlight_surrounds (r : SourceRange) (lines : List String) (note : String) (padding : ℕ) :
    (Surrounds r lines note padding (highlight r lines note padding) ↔ ¬ JustPast r lines padding) ∧
      (JustPast r lines padding →
        (highlight r lines note padding).map (·.number) =
            List.range' (max 1 (r.startLine - padding)) (lines.length + 1 - max 1 (r.startLine - padding)) ∧
          highlight r lines note padding ≠ [] ∧
          ∀ l ∈ highlight r lines note padding,
            lines[l.number - 1]? = some l.text ∧ l.highlighted = false ∧ l.note = "") := by
  have hne (h : JustPast r lines padding) : highlight r lines note padding ≠ [] := by
    rw [Ne, highlight_eq_nil_iff, not_or, Nat.not_lt]
    exact ⟨h.1, h.2.2⟩
  refine ⟨⟨fun hs h => hne h (hs.eq_nil_iff.2 (.inr h.2.1)), surrounds_of_not_justPast⟩, fun h => ⟨?_, hne h, ?_⟩⟩
  · have hlast : lastShown r lines.length padding = lines.length := by
      have := r.start_le_end
      exact Nat.min_eq_left (by have := h.2.1; omega)
    rw [map_number_highlight, hlast, firstShown]
  · intro l hl
    obtain ⟨htext, hmark, hnote⟩ := mem_highlight hl
    obtain ⟨hlt, -⟩ := List.getElem?_eq_some_iff.1 htext
    -- no line of the file reaches the start of the range
    have hbefore : l.number < r.startLine := by
      have := h.2.1
      omega
    refine ⟨htext, ?_, by rw [hnote, if_neg (Nat.ne_of_lt hbefore)]⟩
    rw [hmark, Bool.eq_false_iff, Ne, containsLine_iff]
    omega

/-- For line 2 of a file with one line that line is shown. -/
theorem not_surrounds_past_end :
    ∃ (r : SourceRange) (l : SourceLine), r.startLine = 2 ∧ r.endLine = 2 ∧
      highlight r ["a"] "" contextLines = [l] ∧ l.number = 1 ∧ l.text = "a" ∧ l.highlighted = false ∧
      ¬ Surrounds r ["a"] "" 3 (highlight r ["a"] "" contextLines) := by
  refine ⟨⟨"f.tf", 2, 2, by decide, by decide, by decide⟩, ⟨1, "a", false, ""⟩, rfl, rfl, rfl, rfl, rfl, rfl, ?_⟩
  intro h
  have hnil := h.eq_nil_iff.2 (.inr (by decide))
  cases hnil

end InfraAudit.Report
