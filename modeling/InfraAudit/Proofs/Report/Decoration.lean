import InfraAudit.Proofs.Report.Surrounding
import InfraAudit.Report.Text
import Mathlib.Data.List.Forall2

/-!
# InfraAudit.Proofs.Report.Decoration — colours change nothing else

* `uncontrolled`: a text without its control sequences; `Plain`: a text without the character that starts one.
* `Decorates s t`: the text `s` is the plain text `t` with control sequences between its characters.  Plain texts,
  concatenation, painting and joining keep this, so every part of a report has it: `decorates_render`.
* `plain_render_iff`: a report is plain if and only if it has no colours.
* `withoutControls_render`: without its control sequences a coloured report is the report without colours.
-/

namespace InfraAudit.Report

open InfraAudit.Text

/-! ### Control sequences -/

/-- The character that starts a control sequence. -/
def escape : Char := '\x1b'

/-- What follows the control sequence that a text starts with: an escape, a bracket, digits and an `m`. -/
def behindControl? : List Char → Option (List Char)
  | '\x1b' :: '[' :: s =>
    match s.takeWhile Char.isDigit, s.dropWhile Char.isDigit with
    | _ :: _, 'm' :: rest => some rest
    | _, _ => none
  | _ => none

theorem length_behindControl? {s rest : List Char} (h : behindControl? s = some rest) : rest.length < s.length := by
  unfold behindControl? at h
  split at h
  · next s =>
    split at h
    · next hdrop =>
      cases h
      have hle := (List.dropWhile_sublist (l := s) Char.isDigit).length_le
      rw [hdrop, List.length_cons] at hle
      simp only [List.length_cons]
      omega
    · cases h
  · cases h

/-- A text without its control sequences. -/
def uncontrolled : List Char → List Char
  | [] => []
  | c :: s =>
    match _h : behindControl? (c :: s) with
    | some rest => uncontrolled rest
    | none => c :: uncontrolled s
termination_by s => s.length
decreasing_by
  · exact length_behindControl? _h
  · exact Nat.lt_succ_self _

/-- A string without its control sequences. -/
def withoutControls (s : String) : String :=
  String.ofList (uncontrolled s.toList)

variable {s t rest : List Char}

theorem uncontrolled_of_behindControl? (h : behindControl? s = some rest) : uncontrolled s = uncontrolled rest := by
  cases s with
  | nil => cases h
  | cons c s =>
    rw [uncontrolled]
    split
    · next h' => rw [Option.some.inj (h'.symm.trans h)]
    · next h' => cases h'.symm.trans h

theorem uncontrolled_cons {c : Char} (hc : c ≠ escape) (s : List Char) :
    uncontrolled (c :: s) = c :: uncontrolled s := by
  rw [uncontrolled]
  split
  · next h =>
    unfold behindControl? at h
    split at h
    · next heq => exact absurd (List.cons.inj heq).1 hc
    · cases h
  · rfl

theorem uncontrolled_append_of_not_mem (hs : escape ∉ s) (rest : List Char) :
    uncontrolled (s ++ rest) = s ++ uncontrolled rest := by
  induction s with
  | nil => rfl
  | cons c s ih =>
    obtain ⟨hc, hs⟩ := not_or.1 (List.mem_cons.not.1 hs)
    rw [List.cons_append, uncontrolled_cons (Ne.symm hc), ih hs, List.cons_append]

theorem toList_control (n : ℕ) : (control n).toList = '\x1b' :: '[' :: (Nat.toDigits 10 n ++ ['m']) := by
  rw [control, String.toList_append, String.toList_append, Nat.toString_eq_repr, Nat.toList_repr]
  rfl

theorem behindControl?_control (n : ℕ) (rest : List Char) :
    behindControl? ((control n).toList ++ rest) = some rest := by
  have hdigits : ∀ c ∈ Nat.toDigits 10 n, c.isDigit = true := fun c hc =>
    Nat.isDigit_of_mem_toDigits (by decide) (by decide) hc
  obtain ⟨d, ds, hds⟩ := List.exists_cons_of_ne_nil (Nat.toDigits_ne_nil (b := 10) (n := n))
  have htake : (Nat.toDigits 10 n ++ 'm' :: rest).takeWhile Char.isDigit = d :: ds := by
    rw [List.takeWhile_append_of_pos hdigits, hds, List.takeWhile_cons_of_neg (by decide), List.append_nil]
  have hdrop : (Nat.toDigits 10 n ++ 'm' :: rest).dropWhile Char.isDigit = 'm' :: rest := by
    rw [List.dropWhile_append_of_pos hdigits, List.dropWhile_cons_of_neg (by decide)]
  rw [toList_control, List.cons_append, List.cons_append, List.append_assoc, List.singleton_append, behindControl?,
    htake, hdrop]
  rfl

theorem uncontrolled_control (n : ℕ) (rest : List Char) :
    uncontrolled ((control n).toList ++ rest) = uncontrolled rest :=
  uncontrolled_of_behindControl? (behindControl?_control n rest)

/-! ### Plain texts -/

/-- A text without the character that starts a control sequence. -/
def Plain (s : String) : Prop :=
  escape ∉ s.toList

instance (s : String) : Decidable (Plain s) :=
  inferInstanceAs (Decidable (¬ _))

theorem Plain.append {s t : String} (hs : Plain s) (ht : Plain t) : Plain (s ++ t) := by
  rw [Plain, String.toList_append, List.mem_append]
  exact not_or.2 ⟨hs, ht⟩

theorem plain_toString (n : ℕ) : Plain (toString n) := by
  rw [Plain, Nat.toString_eq_repr, Nat.toList_repr]
  intro h
  have hdigit := Nat.isDigit_of_mem_toDigits (by decide) (by decide) h
  exact absurd hdigit (by decide)

theorem plain_sixColumns (n : ℕ) : Plain (TextStyle.sixColumns n) := by
  refine Plain.append ?_ (plain_toString n)
  rw [Plain, String.toList_ofList]
  intro h
  exact absurd (List.eq_of_mem_replicate h) (by decide)

theorem plain_range_text {r : SourceRange} (h : Plain r.filename) : Plain r.text := by
  have hcolon : Plain ":" := by decide
  have hdash : Plain "-" := by decide
  rw [SourceRange.text]
  split
  · exact (h.append hcolon).append (plain_toString _)
  · exact (((h.append hcolon).append (plain_toString _)).append hdash).append (plain_toString _)

/-- The texts of a finding are plain. -/
structure PlainFinding (f : Finding) : Prop where
  code : Plain f.code
  description : Plain f.description
  filename : Plain f.range.filename
  note : Plain f.note

/-- The texts of the findings are plain, and so are the lines of their files. -/
def PlainSources (lines? : String → Option (List String)) (fs : List Finding) : Prop :=
  ∀ f ∈ fs, PlainFinding f ∧ ∀ lines, lines? f.range.filename = some lines → ∀ l ∈ lines, Plain l

/-! ### Decorated texts -/

/-- A text is a plain one with control sequences between its characters. -/
structure Decorates (s t : String) : Prop where
  plain : Plain t
  uncontrolled_append : ∀ rest, uncontrolled (s.toList ++ rest) = t.toList ++ uncontrolled rest

theorem Decorates.of_plain {s : String} (h : Plain s) : Decorates s s :=
  ⟨h, uncontrolled_append_of_not_mem h⟩

theorem Decorates.append {s t s' t' : String} (h : Decorates s t) (h' : Decorates s' t') :
    Decorates (s ++ s') (t ++ t') where
  plain := h.plain.append h'.plain
  uncontrolled_append rest := by
    rw [String.toList_append, String.toList_append, List.append_assoc, h.uncontrolled_append, h'.uncontrolled_append,
      List.append_assoc]

theorem Decorates.withoutControls_eq {s t : String} (h : Decorates s t) : withoutControls s = t := by
  have hs := h.uncontrolled_append []
  rw [List.append_nil, uncontrolled, List.append_nil] at hs
  rw [withoutControls, hs, String.ofList_toList]

theorem Decorates.intercalate {sep : String} (hsep : Plain sep) {ls ms : List String}
    (h : List.Forall₂ Decorates ls ms) : Decorates (sep.intercalate ls) (sep.intercalate ms) := by
  induction h with
  | nil => exact .of_plain (show Plain "" by decide)
  | @cons l m ls ms hlm hrest ih =>
    cases hrest with
    | nil => rwa [String.intercalate_singleton, String.intercalate_singleton]
    | cons h' hrest =>
      rw [String.intercalate_cons_cons, String.intercalate_cons_cons]
      exact (hlm.append (.of_plain hsep)).append ih

/-! ### The parts of a report -/

namespace TextStyle

variable {verbose : Bool} {lines? : String → Option (List String)}

/-- What is painted is between two control sequences, or stands there as it is. -/
theorem decorates_paint (verbose : Bool) (tint : Tint) {s t : String} (h : Decorates s t) :
    Decorates (paint ⟨true, verbose⟩ tint s) (paint ⟨false, verbose⟩ tint t) where
  plain := h.plain
  uncontrolled_append rest := by
    show uncontrolled ((control tint.number ++ s ++ control 0).toList ++ rest) = t.toList ++ uncontrolled rest
    rw [String.toList_append, String.toList_append, List.append_assoc, List.append_assoc, uncontrolled_control,
      h.uncontrolled_append, uncontrolled_control]

theorem decorates_paint_plain (verbose : Bool) (tint : Tint) {s : String} (h : Plain s) :
    Decorates (paint ⟨true, verbose⟩ tint s) (paint ⟨false, verbose⟩ tint s) :=
  decorates_paint verbose tint (.of_plain h)

theorem decorates_sourceLine {l : SourceLine} (htext : Plain l.text) (hnote : Plain l.note) :
    Decorates (sourceLine ⟨true, verbose⟩ l) (sourceLine ⟨false, verbose⟩ l) := by
  have hgutter := ((Decorates.of_plain (s := "  ") (by decide)).append
    (decorates_paint_plain verbose .blue (plain_sixColumns l.number))).append (.of_plain (s := " | ") (by decide))
  have hadded : Decorates (if l.note = "" then "" else "    " ++ paint ⟨true, verbose⟩ .blue l.note)
      (if l.note = "" then "" else "    " ++ paint ⟨false, verbose⟩ .blue l.note) := by
    split
    · exact .of_plain (by decide)
    · exact (Decorates.of_plain (by decide)).append (decorates_paint_plain verbose .blue hnote)
  unfold sourceLine
  cases l.highlighted with
  | true =>
    exact hgutter.append (decorates_paint verbose .bold ((decorates_paint_plain verbose .red htext).append hadded))
  | false => exact hgutter.append (decorates_paint_plain verbose .yellow htext)

/-- The lines shown for a range have plain texts and notes if the file and the note are plain. -/
theorem forall₂_sourceLines {lines : List String} {r : SourceRange} {note : String} (hlines : ∀ l ∈ lines, Plain l)
    (hnote : Plain note) :
    List.Forall₂ Decorates ((highlight r lines note contextLines).map (sourceLine ⟨true, verbose⟩))
      ((highlight r lines note contextLines).map (sourceLine ⟨false, verbose⟩)) := by
  rw [List.forall₂_map_left_iff, List.forall₂_map_right_iff, List.forall₂_same]
  intro l (hl : l ∈ highlight r lines note (3 : ℕ))
  obtain ⟨htext, -, hnote'⟩ := mem_highlight hl
  refine decorates_sourceLine (hlines _ (List.mem_of_getElem? htext)) ?_
  rw [hnote']
  split
  · exact hnote
  · decide

theorem forall₂_findingLines {f : Finding} (index : ℕ) (hf : PlainFinding f)
    (hlines : ∀ lines, lines? f.range.filename = some lines → ∀ l ∈ lines, Plain l) :
    List.Forall₂ Decorates (findingLines ⟨true, verbose⟩ lines? index f)
      (findingLines ⟨false, verbose⟩ lines? index f) := by
  have hblank : Decorates "" "" := .of_plain (by decide)
  have hindent : Decorates "  " "  " := .of_plain (by decide)
  have htitle := decorates_paint_plain verbose .underline
    (Plain.append (s := "Problem ") (by decide) (plain_toString index))
  have hcode := (((hindent.append (decorates_paint_plain verbose .blue (s := "[") (by decide))).append
    (.of_plain hf.code)).append (decorates_paint_plain verbose .blue (s := "]") (by decide))).append
    (.of_plain (s := " ") (by decide)) |>.append (.of_plain hf.description)
  have hplace := hindent.append (decorates_paint_plain verbose .blue (plain_range_text hf.filename))
  have hseverity : Decorates
      ("  Severity: " ++ paint ⟨true, verbose⟩ (severityTint f.severity) (upper f.severity.name))
      ("  Severity: " ++ paint ⟨false, verbose⟩ (severityTint f.severity) (upper f.severity.name)) :=
    (Decorates.of_plain (by decide)).append (decorates_paint_plain _ _ (by cases f.severity <;> decide +kernel))
  unfold findingLines
  refine List.rel_append (List.rel_append (List.rel_append ?_ ?_) ?_) ?_
  · exact .cons htitle (.cons hblank (.cons hcode (.cons hplace .nil)))
  · cases verbose with
    | true => exact .cons hseverity .nil
    | false => exact .nil
  · exact .cons hblank .nil
  · cases h : lines? f.range.filename with
    | none => exact .nil
    | some lines =>
      exact List.rel_append (forall₂_sourceLines (hlines lines h) hf.note) (.cons hblank .nil)

theorem forall₂_flatMap {α β γ : Type} {R : β → γ → Prop} {l : List α} {f : α → List β} {g : α → List γ}
    (h : ∀ x ∈ l, List.Forall₂ R (f x) (g x)) : List.Forall₂ R (l.flatMap f) (l.flatMap g) := by
  induction l with
  | nil => exact .nil
  | cons x l ih =>
    obtain ⟨hx, hl⟩ := List.forall_mem_cons.1 h
    exact List.rel_append hx (ih hl)

theorem forall₂_reportLines {fs : List Finding} (h : PlainSources lines? fs) :
    List.Forall₂ Decorates (reportLines ⟨true, verbose⟩ lines? fs) (reportLines ⟨false, verbose⟩ lines? fs) := by
  have hblank : Decorates "" "" := .of_plain (by decide)
  unfold reportLines
  split
  · exact .cons hblank (.cons (decorates_paint_plain verbose .green (by decide)) (.cons hblank .nil))
  · refine List.rel_append ?_ (forall₂_flatMap fun x hx => ?_)
    · have hcount : Plain (toString fs.length ++ " potential problems detected:") :=
        (plain_toString _).append (by decide)
      exact .cons hblank (.cons (decorates_paint_plain verbose .red hcount) (.cons hblank .nil))
    · obtain ⟨hf, hlines⟩ := h x.1 (List.fst_mem_of_mem_zipIdx hx)
      exact forall₂_findingLines x.2 hf hlines

/-- A coloured report is the report without colours, with control sequences between its characters. -/
theorem decorates_render {fs : List Finding} (h : PlainSources lines? fs) :
    Decorates (render ⟨true, verbose⟩ lines? fs) (render ⟨false, verbose⟩ lines? fs) :=
  .intercalate (by decide) (forall₂_reportLines h)

theorem not_plain_render_coloured (lines? : String → Option (List String)) (fs : List Finding) :
    ¬ Plain (render ⟨true, verbose⟩ lines? fs) := by
  -- the second line is painted, whatever is found
  obtain ⟨tint, s, rest, hlines⟩ : ∃ tint s rest,
      reportLines ⟨true, verbose⟩ lines? fs = "" :: paint ⟨true, verbose⟩ tint s :: "" :: rest := by
    unfold reportLines
    split
    · exact ⟨_, _, _, rfl⟩
    · exact ⟨_, _, _, rfl⟩
  rw [render, hlines, String.intercalate_cons_cons, String.intercalate_cons_cons, Plain, not_not]
  simp [paint, control, escape]

/-- A report is plain if and only if it has no colours. -/
theorem plain_render_iff {fs : List Finding} (h : PlainSources lines? fs) (style : TextStyle) :
    Plain (style.render lines? fs) ↔ style.coloured = false := by
  obtain ⟨coloured, verbose⟩ := style
  cases coloured with
  | true => simpa using not_plain_render_coloured lines? fs
  | false => simpa using (decorates_render h).plain

/-- If neither the findings nor the lines of their files have the escape character, then a coloured report without its
control sequences is the report without colours. -/
theorem withoutControls_render {lines? : String → Option (List String)} {fs : List Finding} (h : PlainSources lines? fs)
    (verbose : Bool) : withoutControls (render ⟨true, verbose⟩ lines? fs) = render ⟨false, verbose⟩ lines? fs :=
  (decorates_render h).withoutControls_eq

/-- Two findings, of which one is in a file that can be read. -/
theorem withoutControls_render_verbose :
    ∃ (lines? : String → Option (List String)) (fs : List Finding),
      (fs.map fun f => (f.code, f.description, f.range.text, f.note)) =
        [("AWS001", "Open", "a.tf:2", "x"), ("GEN003", "Key", "b.tf:1-2", "")] ∧
      lines? "a.tf" = some ["b \x7b", "  acl = x", "\x7d"] ∧ lines? "b.tf" = none ∧ PlainSources lines? fs ∧
      withoutControls (render ⟨true, true⟩ lines? fs) =
        "\n2 potential problems detected:\n\nProblem 1\n\n  [AWS001] Open\n  a.tf:2\n  Severity: WARNING\n\n" ++
          "       1 | b \x7b\n       2 |   acl = x    x\n       3 | \x7d\n\n" ++
          "Problem 2\n\n  [GEN003] Key\n  b.tf:1-2\n  Severity: ERROR\n" := by
  let lines? : String → Option (List String) := fun name =>
    if name = "a.tf" then some ["b \x7b", "  acl = x", "\x7d"] else none
  let f : Finding := ⟨"AWS001", "Open", ⟨"a.tf", 2, 2, by decide, by decide, by decide⟩, .warning, "x"⟩
  let g : Finding := ⟨"GEN003", "Key", ⟨"b.tf", 1, 2, by decide, by decide, by decide⟩, .error, ""⟩
  have hsources : PlainSources lines? [f, g] := by
    refine List.forall_mem_cons.2 ⟨⟨⟨by decide, by decide, by decide, by decide⟩, ?_⟩,
      List.forall_mem_singleton.2 ⟨⟨by decide, by decide, by decide, by decide⟩, ?_⟩⟩
    · intro lines hlines
      cases hlines
      decide
    · intro lines hlines
      cases hlines
  refine ⟨lines?, [f, g], by decide +kernel, by decide, by decide, hsources, ?_⟩
  rw [withoutControls_render hsources]
  decide +kernel

end TextStyle

end InfraAudit.Report
