import InfraAudit.Files.Workspace
import InfraAudit.Proofs.Check.Reporting
import InfraAudit.Proofs.Hcl.Enclosure
import InfraAudit.Proofs.Hcl.Inversion
import InfraAudit.Proofs.Report.Surrounding
import InfraAudit.Report.Context

/-!
# InfraAudit.Proofs.Report.Marking — the lines that a report marks

Positions count a line for each newline, while the lines of a report end at other separators too.

* `take_splitOnP_of_imp`: more separators change nothing in front of the first of them.
* `take_splitLines`: so the lines of a text are those between its newlines, up to the first other separator.
* `Lexer.Chain.endLine_le_dropLast`: no lexeme ends behind the line of the last character.
* `marked_highlight`: the lines marked for a range are those of its numbers, if there are so many.
* `marked_lines`: for a range of a file, these are the lines that the positions count, if no other separator stands in
  the lines up to its end; a separator inside of the range makes them differ.
-/

namespace InfraAudit

open InfraAudit.Hcl InfraAudit.Text InfraAudit.Files

namespace Text

/-! ### More or fewer separators -/

section Splitting

variable {α : Type} {p q : α → Bool}

theorem length_splitOnP (p : α → Bool) (s : List α) : (s.splitOnP p).length = 1 + s.countP p := by
  induction s with
  | nil => rfl
  | cons c s ih =>
    rw [List.splitOnP_cons_eq_if_modifyHead, List.countP_cons]
    split <;> simp [ih]
    omega

/-- The parts contain no separator. -/
theorem not_of_mem_splitOnP {s l : List α} (hl : l ∈ s.splitOnP p) : ∀ c ∈ l, p c = false := by
  induction s generalizing l with
  | nil => simp_all
  | cons a s ih =>
    rw [List.splitOnP_cons_eq_if_modifyHead] at hl
    split at hl
    · rcases List.mem_cons.1 hl with rfl | hl
      · simp
      · exact ih hl
    · next ha =>
      obtain ⟨x, xs, hx⟩ := List.exists_cons_of_ne_nil (List.splitOnP_ne_nil p s)
      rw [hx] at hl ih
      rcases List.mem_cons.1 hl with rfl | hl
      · exact List.forall_mem_cons.2 ⟨by simpa using ha, ih List.mem_cons_self⟩
      · exact ih (List.mem_cons_of_mem _ hl)

theorem take_modifyHead {f : α → α} (l : List α) (n : Nat) :
    (l.modifyHead f).take (n + 1) = (l.take (n + 1)).modifyHead f := by
  cases l <;> rfl

/-- If the first parts contain no further separators, these change nothing there. -/
theorem take_splitOnP_of_imp {s : List α} {n : Nat} (hpq : ∀ c, p c = true → q c = true)
    (h : ∀ l ∈ (s.splitOnP p).take n, ∀ c ∈ l, q c = false) : (s.splitOnP q).take n = (s.splitOnP p).take n := by
  induction s generalizing n with
  | nil => rfl
  | cons a s ih =>
    cases n with
    | zero => rfl
    | succ n =>
      rw [List.splitOnP_cons_eq_if_modifyHead] at h ⊢
      rw [List.splitOnP_cons_eq_if_modifyHead]
      cases ha : p a with
      | true =>
        rw [ha, if_pos rfl, List.take_succ_cons] at h
        rw [if_pos rfl, if_pos (hpq a ha), List.take_succ_cons, List.take_succ_cons,
          ih fun l hl => h l (List.mem_cons_of_mem _ hl)]
      | false =>
        rw [ha, if_neg Bool.false_ne_true, take_modifyHead] at h
        obtain ⟨x, xs, hx⟩ := List.exists_cons_of_ne_nil (List.splitOnP_ne_nil p s)
        have hqs : ∀ l ∈ (s.splitOnP p).take (n + 1), ∀ c ∈ l, q c = false := by
          rw [hx, List.take_succ_cons, List.modifyHead_cons] at h
          rw [hx, List.take_succ_cons]
          obtain ⟨h1, h2⟩ := List.forall_mem_cons.1 h
          exact List.forall_mem_cons.2 ⟨(List.forall_mem_cons.1 h1).2, h2⟩
        have hqa : q a = false := by
          rw [hx, List.take_succ_cons, List.modifyHead_cons] at h
          exact h _ List.mem_cons_self a List.mem_cons_self
        rw [hqa, if_neg Bool.false_ne_true, if_neg Bool.false_ne_true, take_modifyHead, take_modifyHead, ih hqs]

/-- A text whose last part is empty ends in a separator. -/
theorem of_getLast?_splitOnP {s : List α} {c : α} (h : ((s ++ [c]).splitOnP p).getLast? = some []) : p c = true := by
  induction s with
  | nil =>
    by_contra hc
    simp [List.splitOnP_cons_eq_if_modifyHead, hc] at h
  | cons a s ih =>
    obtain ⟨x, xs, hx⟩ := List.exists_cons_of_ne_nil (List.splitOnP_ne_nil p (s ++ [c]))
    apply ih
    rw [List.cons_append, List.splitOnP_cons_eq_if_modifyHead, hx] at h
    rw [hx]
    split at h
    · rwa [List.getLast?_cons_cons] at h
    · cases xs with
      | nil => simp at h
      | cons y ys => simpa using h

end Splitting

/-! ### The lines of a text -/

/-- The lines of a text as positions count them: those between newlines. -/
def newlineLines (s : List Char) : List (List Char) :=
  s.splitOn '\n'

/-- The number of the line in which the last character stands. -/
def lineCount (s : List Char) : Nat :=
  if s = [] then 0 else 1 + s.dropLast.count '\n'

/-- No separator stands in the line. -/
def Unbroken (l : List Char) : Prop :=
  ∀ c ∈ l, isLineBreak c = false

theorem newlineLines_eq (s : List Char) : newlineLines s = s.splitOnP (· == '\n') :=
  List.splitOn_eq_splitOnP

theorem lineCount_le_length (s : List Char) : lineCount s ≤ (newlineLines s).length := by
  rw [newlineLines_eq, length_splitOnP, lineCount]
  split
  · exact Nat.zero_le _
  · exact Nat.add_le_add_left ((List.dropLast_sublist s).count_le '\n') 1

theorem splitLines_cases (s : List Char) :
    splitLines s = s.splitOnP isLineBreak ∨
      ((s.splitOnP isLineBreak).getLast? = some [] ∧ splitLines s = (s.splitOnP isLineBreak).dropLast) := by
  by_cases h : (s.splitOnP isLineBreak).getLast? = some []
  · exact .inr ⟨h, if_pos h⟩
  · exact .inl (if_neg h)

theorem unbroken_of_mem_splitLines {s l : List Char} (hl : l ∈ splitLines s) : Unbroken l := by
  refine not_of_mem_splitOnP (s := s) ?_
  rcases splitLines_cases s with h | ⟨-, h⟩
  · exact h ▸ hl
  · exact List.dropLast_subset _ (h ▸ hl)

theorem isLineBreak_of_eq_newline (c : Char) (h : (c == '\n') = true) : isLineBreak c = true := by
  rw [eq_of_beq h]
  rfl

/-- A report has a line for each one that the positions count. -/
theorem lineCount_le_length_splitLines (s : List Char) : lineCount s ≤ (splitLines s).length := by
  have hcount (t : List Char) : t.count '\n' ≤ t.countP isLineBreak :=
    List.countP_mono_left fun c _ => isLineBreak_of_eq_newline c
  rcases splitLines_cases s with h | ⟨hlast, h⟩
  · have hlines := lineCount_le_length s
    rw [newlineLines_eq, length_splitOnP] at hlines
    rw [h, length_splitOnP]
    exact Nat.le_trans hlines (Nat.add_le_add_left (hcount s) 1)
  · rw [h, List.length_dropLast, length_splitOnP, Nat.add_sub_cancel_left]
    -- the last character is a separator, which starts no further line
    rcases List.eq_nil_or_concat s with rfl | ⟨t, c, rfl⟩
    · exact Nat.le_refl 0
    · rw [List.concat_eq_append] at hlast ⊢
      have hc : isLineBreak c = true := of_getLast?_splitOnP hlast
      rw [lineCount, if_neg (by simp), List.dropLast_concat, List.countP_append, List.countP_singleton, if_pos hc,
        Nat.add_comm]
      exact Nat.add_le_add_right (hcount t) 1

/-- Up to the first other separator, the lines of a report are those that the positions count. -/
theorem take_splitLines {s : List Char} {n : Nat} (hn : n ≤ lineCount s)
    (h : ∀ l ∈ (newlineLines s).take n, Unbroken l) : (splitLines s).take n = (newlineLines s).take n := by
  rw [newlineLines_eq] at h ⊢
  have htake := take_splitOnP_of_imp isLineBreak_of_eq_newline h
  have hlength := Nat.le_trans hn (lineCount_le_length_splitLines s)
  rcases splitLines_cases s with hs | ⟨-, hs⟩
  · rw [hs, htake]
  · rw [hs, List.length_dropLast] at hlength
    rw [hs, List.dropLast_eq_take, List.take_take, Nat.min_eq_left hlength, htake]

end Text

/-! ### Where lexemes end -/

namespace Hcl

/-- No lexeme ends behind the line of the last character. -/
theorem Lexer.Chain.endLine_le_dropLast {p : Position} {ls : List Lexer.Lexeme} (h : Lexer.Chain p ls) :
    ∀ l ∈ ls, l.endLine ≤ (p.after (ls.flatMap Lexer.Lexeme.text).dropLast).line := by
  induction ls generalizing p with
  | nil => simp
  | cons l ls ih =>
    obtain ⟨rfl, -, -, h⟩ := h
    rw [List.flatMap_cons]
    cases ls with
    | nil =>
      rw [List.flatMap_nil, List.append_nil]
      exact List.forall_mem_cons.2 ⟨Nat.le_refl _, by simp⟩
    | cons m ls =>
      have hm : (m :: ls).flatMap Lexer.Lexeme.text ≠ [] := by
        rw [List.flatMap_cons]
        exact List.append_ne_nil_of_left_ne_nil h.2.1 _
      rw [List.dropLast_append_of_ne_nil hm, Position.after_append]
      exact List.forall_mem_cons.2 ⟨Nat.le_trans l.endLine_le (Position.line_le_after _ _), ih h⟩

theorem endLine_le_lineCount {source : String} {x : Lexed} (h : lex source = .ok x) :
    ∀ t ∈ x.tokens, t.endLine ≤ lineCount source.toList := by
  obtain ⟨ls, hls, rfl⟩ := Document.eq_ok_of_map h
  intro t ht
  obtain ⟨l, hl, hlt⟩ := List.mem_filterMap.1 ht
  have hend := (Lexer.chain_of_lexemes hls).endLine_le_dropLast l hl
  rw [Lexer.lexemes_text hls, Position.after_line] at hend
  rw [Lexer.Lexeme.token?_endLine hlt, lineCount]
  split
  · next hnil =>
    rw [hnil, Lexer.lexemes] at hls
    cases hls
    cases hl
  · exact hend

/-- The ranges of a file end by the line of its last character. -/
theorem Document.within_lineCount {filename source : String} {d : Document} {r : SourceRange}
    (h : (Document.parse filename source).outcome = .ok d)
    (hr : r ∈ (Block.walkAll d.blocks).flatMap Block.ownRanges) : r.Within filename 1 (lineCount source.toList) := by
  obtain ⟨x, hx⟩ := exists_lex_of_parse h
  obtain ⟨_, harranged⟩ := arranged_of_tokens hx (endLine_le_lineCount hx) h
  obtain ⟨b, hb, hr⟩ := List.mem_flatMap.1 hr
  obtain ⟨hrange, hattributes, -⟩ := harranged.walk b hb
  rw [Block.ownRanges, List.mem_cons, List.mem_map] at hr
  rcases hr with rfl | ⟨a, ha, rfl⟩
  · exact hrange
  · exact hattributes a ha

end Hcl

namespace Report

/-! ### The marked lines -/

/-- The marked ones of the lines shown, with their numbers. -/
def marked (ls : List SourceLine) : List (String × Nat) :=
  (ls.filter (·.highlighted)).map fun l => (l.text, l.number)

/-- The lines of a range, with their numbers. -/
def numbered (r : SourceRange) (lines : List String) : List (String × Nat) :=
  ((lines.take r.endLine).drop (r.startLine - 1)).zipIdx r.startLine

theorem filter_zipIdx {α : Type} (l : List α) (k first last : Nat) :
    ((l.zipIdx k).filter fun x => first ≤ x.2 && x.2 ≤ last) =
      ((l.take (last + 1 - k)).drop (first - k)).zipIdx (max first k) := by
  induction l generalizing k with
  | nil => simp
  | cons a l ih =>
    rw [List.zipIdx_cons, List.filter_cons, ih]
    by_cases hlast : k ≤ last
    · obtain ⟨n, hn⟩ : ∃ n, last + 1 - k = n + 1 := ⟨last - k, by omega⟩
      have hn' : last + 1 - (k + 1) = n := by omega
      rw [hn, hn', List.take_succ_cons]
      by_cases hfirst : first ≤ k
      · have h0 : first - k = 0 := by omega
        have h1 : first - (k + 1) = 0 := by omega
        have h2 : max first (k + 1) = max first k + 1 := by omega
        simp [hfirst, hlast, h0, h1, h2]
      · obtain ⟨m, hm⟩ : ∃ m, first - k = m + 1 := ⟨first - k - 1, by omega⟩
        have hm' : first - (k + 1) = m := by omega
        have h1 : max first (k + 1) = max first k := by omega
        simp [hfirst, hm, hm', h1]
    · have h0 : last + 1 - k = 0 := by omega
      have h1 : last + 1 - (k + 1) = 0 := by omega
      simp [hlast, h0, h1]

/-- The lines marked are those of the range, if the file has them all. -/
theorem marked_highlight {r : SourceRange} {lines : List String} {padding : Int} (note : String)
    (hr : r.endLine ≤ lines.length) (hp : 0 ≤ padding) :
    marked (highlight r lines note padding) = numbered r lines := by
  obtain ⟨p, rfl⟩ := Int.eq_ofNat_of_zero_le hp
  have hle := r.start_le_end
  have hstart : 1 ≤ firstShown r p ∧ firstShown r p ≤ r.startLine := by
    have := r.one_le_start
    rw [firstShown]
    omega
  have hlast : r.endLine ≤ lastShown r lines.length p := le_min hr (Nat.le_add_right _ _)
  generalize hfirst : firstShown r p = first at hstart
  generalize hlast' : lastShown r lines.length p = last at hlast
  have hrange (x : String × Nat) : r.containsLine x.2 = (decide (r.startLine ≤ x.2) && decide (x.2 ≤ r.endLine)) := by
    simp [SourceRange.containsLine]
  have hlines : (((lines.take last).drop (first - 1)).take (r.endLine + 1 - first)).drop (r.startLine - first) =
      (lines.take r.endLine).drop (r.startLine - 1) := by
    have htake : min (first - 1 + (r.endLine + 1 - first)) last = r.endLine := by omega
    have hdrop : first - 1 + (r.startLine - first) = r.startLine - 1 := by omega
    rw [List.take_drop, List.drop_drop, List.take_take, hdrop, htake]
  calc marked (highlight r lines note p)
      = ((((lines.take last).drop (first - 1)).zipIdx first).filter fun x => r.containsLine x.2) := by
        rw [marked, highlight_eq, hfirst, hlast', List.filter_map, List.map_map]
        exact List.map_id _
    _ = (((lines.take last).drop (first - 1)).zipIdx first).filter
          fun x => r.startLine ≤ x.2 && x.2 ≤ r.endLine := by
        simp only [hrange]
    _ = numbered r lines := by
        rw [filter_zipIdx, hlines, Nat.max_eq_left hstart.2, numbered]

theorem mem_of_mem_numbered {r : SourceRange} {lines : List String} {x : String × Nat} (hx : x ∈ numbered r lines) :
    x.1 ∈ lines :=
  List.mem_of_mem_take (List.mem_of_mem_drop (List.fst_mem_of_mem_zipIdx hx))

/-- The lines of a text as positions count them. -/
def countedLines (source : String) : List String :=
  (newlineLines source.toList).map String.ofList

/-- The lines of a text as a report counts them. -/
def shownLines (source : String) : List String :=
  (splitLines source.toList).map String.ofList

theorem unbroken_of_mem_shownLines {source l : String} (hl : l ∈ shownLines source) : Unbroken l.toList := by
  obtain ⟨t, ht, rfl⟩ := List.mem_map.1 hl
  rw [String.toList_ofList]
  exact unbroken_of_mem_splitLines ht

theorem take_shownLines {source : String} {n : Nat} (hn : n ≤ lineCount source.toList)
    (h : ∀ l ∈ (countedLines source).take n, Unbroken l.toList) :
    (shownLines source).take n = (countedLines source).take n := by
  have hlines : ∀ l ∈ (newlineLines source.toList).take n, Unbroken l := by
    intro l hl
    have hmem : String.ofList l ∈ (countedLines source).take n := by
      rw [countedLines, ← List.map_take]
      exact List.mem_map_of_mem hl
    have hl' := h _ hmem
    rwa [String.toList_ofList] at hl'
  rw [shownLines, countedLines, ← List.map_take, ← List.map_take, take_splitLines hn hlines]

/-- For a range of a file that is read, the lines marked are those of its numbers in the report.  They are the lines
that the positions count if no other separator stands in the lines up to the end of the range; and if they are, none
stands in the range. -/
theorem marked_lines {w : Workspace} {name : String} {bytes : ByteArray} {d : Document} {r : SourceRange}
    (hread : w.read name = .ok bytes) (hparse : (Document.parse name (readText bytes)).outcome = .ok d)
    (hr : r ∈ (Block.walkAll d.blocks).flatMap Block.ownRanges) (note : String) {padding : Int} (hp : 0 ≤ padding) :
    r.endLine ≤ (countedLines (readText bytes)).length ∧
      ∃ shown, w.lines? r.filename = some shown ∧ marked (highlight r shown note padding) = numbered r shown ∧
        ((∀ l ∈ (countedLines (readText bytes)).take r.endLine, Unbroken l.toList) →
          marked (highlight r shown note padding) = numbered r (countedLines (readText bytes))) ∧
        (marked (highlight r shown note padding) = numbered r (countedLines (readText bytes)) →
          ∀ x ∈ numbered r (countedLines (readText bytes)), Unbroken x.1.toList) := by
  obtain ⟨hname, -, -, hend⟩ := Document.within_lineCount hparse hr
  have hcounted : r.endLine ≤ (countedLines (readText bytes)).length := by
    rw [countedLines, List.length_map]
    exact Nat.le_trans hend (lineCount_le_length _)
  have hshown : r.endLine ≤ (shownLines (readText bytes)).length := by
    rw [shownLines, List.length_map]
    exact Nat.le_trans hend (lineCount_le_length_splitLines _)
  have hlines : w.lines? r.filename = some (shownLines (readText bytes)) := by
    rw [hname, Workspace.lines?, hread, shownLines]
  have hmarked := marked_highlight note hshown hp
  refine ⟨hcounted, _, hlines, hmarked, fun h => ?_, fun h x hx => ?_⟩
  · rw [hmarked, numbered, numbered, take_shownLines hend h]
  · -- the lines marked are lines of the report, in which no separator stands
    rw [← h, hmarked] at hx
    exact unbroken_of_mem_shownLines (mem_of_mem_numbered hx)

/-- A block with a heredoc, in front of a comment with a form feed. -/
theorem marked_lines_heredoc :
    ∃ (bytes : ByteArray) (w : Workspace) (d : Document) (r : SourceRange) (shown : List String),
      bytes = "# a\nb \x7b\n x = <<E\nE\n\x7d\n# \x0c\n".toUTF8 ∧
      w = ⟨.directory [("a.tf", .file bytes)], "/work", [], []⟩ ∧ w.read "a.tf" = .ok bytes ∧
      (Document.parse "a.tf" (readText bytes)).outcome = .ok d ∧
      r ∈ (Block.walkAll d.blocks).flatMap Block.ownRanges ∧ 0 ≤ contextLines ∧
      (∀ l ∈ (countedLines (readText bytes)).take r.endLine, Unbroken l.toList) ∧ w.lines? r.filename = some shown ∧
      marked (highlight r shown "" contextLines) = [("b \x7b", 2), (" x = <<E", 3), ("E", 4), ("\x7d", 5)] := by
  let bytes := "# a\nb \x7b\n x = <<E\nE\n\x7d\n# \x0c\n".toUTF8
  let w : Workspace := ⟨.directory [("a.tf", .file bytes)], "/work", [], []⟩
  let r : SourceRange := ⟨"a.tf", 2, 5, by decide, by decide, by decide⟩
  have hread : w.read "a.tf" = .ok bytes := eq_ok_of_toOption (by decide +kernel)
  obtain ⟨_, d, ho, hd⟩ := Logged.ok_of_map (o := Document.parse "a.tf" (readText bytes))
    (g := fun _ d => (Block.walkAll d.blocks).flatMap Block.ownRanges)
    (b := [r, ⟨"a.tf", 3, 4, by decide, by decide, by decide⟩]) (by decide +kernel)
  have hparse := congrArg Logged.outcome ho
  have hr : r ∈ (Block.walkAll d.blocks).flatMap Block.ownRanges := hd ▸ List.mem_cons_self
  have hunbroken : ∀ l ∈ (countedLines (readText bytes)).take r.endLine, Unbroken l.toList := by
    have hall : ((countedLines (readText bytes)).take r.endLine).all
        (fun l => l.toList.all fun c => isLineBreak c == false) = true := by decide +kernel
    intro l hl c hc
    exact eq_of_beq (List.all_eq_true.1 (List.all_eq_true.1 hall l hl) c hc)
  have hpadding : 0 ≤ contextLines := by decide
  obtain ⟨-, shown, hshown, -, hmarked, -⟩ := marked_lines hread hparse hr "" hpadding
  refine ⟨bytes, w, d, r, shown, rfl, rfl, hread, hparse, hr, hpadding, hunbroken, hshown, ?_⟩
  rw [hmarked hunbroken]
  decide +kernel

/-- Behind a form feed the line marked is one before the block. -/
theorem marked_lines_displaced :
    ∃ (bytes : ByteArray) (w : Workspace) (d : Document) (r : SourceRange) (shown : List String),
      bytes = "#\x0c\nb \x7b\x7d".toUTF8 ∧ w = ⟨.directory [("a.tf", .file bytes)], "/work", [], []⟩ ∧
      w.read "a.tf" = .ok bytes ∧ (Document.parse "a.tf" (readText bytes)).outcome = .ok d ∧
      r ∈ (Block.walkAll d.blocks).flatMap Block.ownRanges ∧ w.lines? r.filename = some shown ∧
      marked (highlight r shown "" contextLines) = [("", 2)] ∧
      numbered r (countedLines (readText bytes)) = [("b \x7b\x7d", 2)] := by
  let bytes := "#\x0c\nb \x7b\x7d".toUTF8
  let r : SourceRange := ⟨"a.tf", 2, 2, by decide, by decide, by decide⟩
  obtain ⟨_, d, ho, hd⟩ := Logged.ok_of_map (o := Document.parse "a.tf" (readText bytes))
    (g := fun _ d => (Block.walkAll d.blocks).flatMap Block.ownRanges) (b := [r]) (by decide +kernel)
  have hr : r ∈ (Block.walkAll d.blocks).flatMap Block.ownRanges := hd ▸ List.mem_singleton_self r
  refine ⟨bytes, _, d, r, ["#", "", "b \x7b\x7d"], rfl, rfl, ?_, congrArg Logged.outcome ho, hr, ?_, ?_, ?_⟩
  · exact eq_ok_of_toOption (by decide +kernel)
  · decide +kernel
  · decide +kernel
  · decide +kernel

end Report

end InfraAudit
