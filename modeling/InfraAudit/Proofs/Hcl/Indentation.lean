import InfraAudit.Proofs.Hcl.PlainText
import InfraAudit.Proofs.Text.Spelling

/-!
# InfraAudit.Proofs.Hcl.Indentation — what dedenting takes from the lines of a heredoc

* `Outdented width`: a line and what is left of it; a line with text loses `width` spaces and tabs in front, a blank
  one white space at its ends.
* `dedent_cases`: no line has text, or one of those with text is indented least, and all lose its indentation.
* `dedent_dedent`: what is dedented stays as it is.
* `outdented_dedent`: dedenting takes the common indentation from the lines with text, and nothing else.
-/

namespace InfraAudit.Hcl.Heredoc

open InfraAudit.Text

variable {line : List Char} {lines : List (List Char)} {width : Nat}

/-! ### Single lines -/

theorem isIndent_of_mem_take (h : width ≤ indentation line) {c : Char} (hc : c ∈ line.take width) :
    isIndent c = true := by
  have hsplit : line.takeWhile isIndent ++ line.dropWhile isIndent = line := List.takeWhile_append_dropWhile
  rw [← hsplit, List.take_append_of_le_length h] at hc
  exact List.mem_takeWhile_imp (List.mem_of_mem_take hc)

theorem isBlankLine_append (a b : List Char) : isBlankLine (a ++ b) = (isBlankLine a && isBlankLine b) :=
  List.all_append

/-- Taking indentation from a line leaves no line blank that has text; a blank line stays blank whatever it loses. -/
theorem isBlankLine_drop (h : isBlankLine line = false → width ≤ indentation line) :
    isBlankLine (line.drop width) = isBlankLine line := by
  have hsplit := isBlankLine_append (line.take width) (line.drop width)
  rw [List.take_append_drop] at hsplit
  cases hb : isBlankLine line with
  | true =>
    rw [hb, eq_comm, Bool.and_eq_true] at hsplit
    exact hsplit.2
  | false =>
    have hlead : isBlankLine (line.take width) = true :=
      List.all_eq_true.2 fun c hc => isBlank_of_isIndent (isIndent_of_mem_take (h hb) hc)
    rw [hlead, Bool.true_and] at hsplit
    rw [← hsplit, hb]

theorem indentation_drop_indentation (line : List Char) : indentation (line.drop (indentation line)) = 0 := by
  rw [indentation, drop_indentation, List.length_eq_zero_iff, List.takeWhile_eq_nil_iff]
  exact fun hpos => by simpa using List.dropWhile_get_zero_not isIndent line hpos

theorem ne_of_indentation_eq_zero (h : indentation line = 0) : ∀ c ∈ line.head?, c ≠ ' ' ∧ c ≠ '\t' := by
  intro c hc
  cases line with
  | nil => cases hc
  | cons d r =>
    obtain rfl : d = c := Option.some.inj hc
    have hstart : isIndent d = false := by simpa [indentation, List.takeWhile_cons] using h
    simpa [isIndent] using hstart

/-! ### Which width is taken -/

/-- Of the lines with text, one is indented by `width` and none by less. -/
structure LeastIndented (lines : List (List Char)) (width : Nat) : Prop where
  attained : ∃ line ∈ lines, isBlankLine line = false ∧ indentation line = width
  least : ∀ line ∈ lines, isBlankLine line = false → width ≤ indentation line

theorem dedent_of_blank (h : ∀ line ∈ lines, isBlankLine line = true) : dedent lines = lines.map (trim isIndent) := by
  have hnone : lines.filter (!isBlankLine ·) = [] := List.filter_eq_nil_iff.2 fun line hl => by simp [h line hl]
  rw [dedent, hnone]
  rfl

theorem dedent_of_least (h : LeastIndented lines width) : dedent lines = lines.map (·.drop width) := by
  have hmin : ((lines.filter (!isBlankLine ·)).map indentation).min? = some width := by
    rw [List.min?_eq_some_iff]
    refine ⟨?_, fun n hn => ?_⟩
    · obtain ⟨line, hl, htext, rfl⟩ := h.attained
      exact List.mem_map_of_mem (List.mem_filter.2 ⟨hl, by simp [htext]⟩)
    · obtain ⟨line, hl, rfl⟩ := List.mem_map.1 hn
      obtain ⟨hl, htext⟩ := List.mem_filter.1 hl
      exact h.least line hl (by simpa using htext)
  rw [dedent, hmin]

theorem dedent_cases (lines : List (List Char)) :
    (∀ line ∈ lines, isBlankLine line = true) ∨ ∃ width, LeastIndented lines width := by
  cases hmin : ((lines.filter (!isBlankLine ·)).map indentation).min? with
  | none =>
    rw [List.min?_eq_none_iff, List.map_eq_nil_iff, List.filter_eq_nil_iff] at hmin
    exact .inl fun line hl => by simpa using hmin line hl
  | some width =>
    obtain ⟨hmem, hle⟩ := List.min?_eq_some_iff.1 hmin
    obtain ⟨line, hl, hw⟩ := List.mem_map.1 hmem
    obtain ⟨hl, htext⟩ := List.mem_filter.1 hl
    refine .inr ⟨width, ⟨line, hl, by simpa using htext, hw⟩, fun l hl htext => hle _ ?_⟩
    exact List.mem_map_of_mem (List.mem_filter.2 ⟨hl, by simp [htext]⟩)

/-- Once the common indentation is taken, a line with text starts where its text does. -/
theorem LeastIndented.dedented (h : LeastIndented lines width) : LeastIndented (lines.map (·.drop width)) 0 where
  attained := by
    obtain ⟨line, hl, htext, rfl⟩ := h.attained
    exact ⟨_, List.mem_map_of_mem hl, (isBlankLine_drop (h.least line hl)).trans htext,
      indentation_drop_indentation line⟩
  least := fun _ _ _ => Nat.zero_le _

theorem dedent_dedent (lines : List (List Char)) : dedent (dedent lines) = dedent lines := by
  rcases dedent_cases lines with hblank | ⟨width, h⟩
  · have hstill : ∀ line ∈ lines.map (trim isIndent), isBlankLine line = true := by
      intro out hout
      obtain ⟨line, hl, rfl⟩ := List.mem_map.1 hout
      have hall := List.all_eq_true.1 (hblank line hl)
      exact List.all_eq_true.2 fun c hc => hall c ((Expression.trim_sublist isIndent line).mem hc)
    rw [dedent_of_blank hblank, dedent_of_blank hstill, List.map_map]
    exact List.map_congr_left fun line _ => trim_trim isIndent line
  · rw [dedent_of_least h, dedent_of_least h.dedented]
    exact List.map_id'' (fun _ => rfl) _

/-! ### What each line loses -/

/-- A line and what is left of it: a line with text loses `width` spaces and tabs in front, a blank one white space at
its ends. -/
inductive Outdented (width : Nat) : List Char → List Char → Prop
  | text {lead line : List Char} (ht : isBlankLine (lead ++ line) = false) (hw : lead.length = width)
      (hl : ∀ c ∈ lead, c = ' ' ∨ c = '\t') : Outdented width (lead ++ line) line
  | blank {lead line trail : List Char} (hb : ∀ c ∈ lead ++ (line ++ trail), isBlank c = true) :
      Outdented width (lead ++ (line ++ trail)) line

theorem outdented_drop (h : isBlankLine line = false → width ≤ indentation line) :
    Outdented width line (line.drop width) := by
  have hsplit : line.take width ++ line.drop width = line := List.take_append_drop width line
  cases hb : isBlankLine line with
  | true =>
    have hblank : Outdented width (line.take width ++ (line.drop width ++ [])) (line.drop width) := by
      refine .blank ?_
      rw [List.append_nil, hsplit]
      exact List.all_eq_true.1 hb
    rwa [List.append_nil, hsplit] at hblank
  | false =>
    have hw : (line.take width).length = width :=
      List.length_take_of_le ((h hb).trans (List.takeWhile_sublist isIndent).length_le)
    have htext : Outdented width (line.take width ++ line.drop width) (line.drop width) :=
      .text (by rwa [hsplit]) hw fun c hc => by simpa [isIndent] using isIndent_of_mem_take (h hb) hc
    rwa [hsplit] at htext

theorem outdented_trim (width : Nat) (h : isBlankLine line = true) : Outdented width line (trim isIndent line) := by
  obtain ⟨lead, trail, hsplit⟩ := exists_trim_eq isIndent line
  have hall : ∀ c ∈ lead ++ (trim isIndent line ++ trail), isBlank c = true := hsplit ▸ List.all_eq_true.1 h
  have hblank : Outdented width (lead ++ (trim isIndent line ++ trail)) (trim isIndent line) := .blank hall
  rwa [← hsplit] at hblank

/-- Dedenting keeps the lines apart and takes the same number of spaces and tabs from each line with text, so many
that one of them then starts with its text; a blank line loses nothing but white space.  There is nothing to take a
second time. -/
theorem outdented_dedent (lines : List (List Char)) :
    ∃ width, List.Forall₂ (Outdented width) lines (dedent lines) ∧
      ((∃ line ∈ lines, isBlankLine line = false) →
        ∃ line ∈ dedent lines, isBlankLine line = false ∧ ∀ c ∈ line.head?, c ≠ ' ' ∧ c ≠ '\t') ∧
      dedent (dedent lines) = dedent lines := by
  rcases dedent_cases lines with hblank | ⟨width, h⟩
  · refine ⟨0, ?_, ?_, dedent_dedent lines⟩
    · rw [dedent_of_blank hblank, List.forall₂_map_right_iff, List.forall₂_same]
      exact fun line hl => outdented_trim 0 (hblank line hl)
    · rintro ⟨line, hl, htext⟩
      rw [hblank line hl] at htext
      cases htext
  · refine ⟨width, ?_, fun _ => ?_, dedent_dedent lines⟩
    · rw [dedent_of_least h, List.forall₂_map_right_iff, List.forall₂_same]
      exact fun line hl => outdented_drop (h.least line hl)
    · rw [dedent_of_least h]
      obtain ⟨line, hl, htext, hnone⟩ := h.dedented.attained
      exact ⟨line, hl, htext, ne_of_indentation_eq_zero hnone⟩

-- the blank line is shorter than what is taken, and does not count for it
example : dedent ["    a".toList, " ".toList, "  \tb ".toList] = [" a".toList, [], "b ".toList] := by decide

end InfraAudit.Hcl.Heredoc
