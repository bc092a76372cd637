import InfraAudit.Proofs.Hcl.Displacement

/-!
# InfraAudit.Proofs.Hcl.Insertion — a comment put at the end of a line

A line takes a comment at its end unless it ends a heredoc, where nothing may stand behind the marker, or ends with a
line comment, which the new one would become a part of.

* `Position.after_inj`: in one text a position is behind one prefix only.
* `EndsLine`: a newline that ends a line which takes a comment.
* `lex_insert`: the comment is one more comment, and of the tokens only the column of the newline changes.
* `parse_insert`: the blocks and the warnings stay as they are.
-/

namespace InfraAudit.Hcl

open InfraAudit.Text

/-! ### Positions in one text -/

namespace Position

section Prefixes

variable {p : Position} {s t u v : List Char}

theorem after_column (p : Position) (h : '\n' ∉ s) : (p.after s).column = p.column + s.length := by
  induction s generalizing p with
  | nil => rfl
  | cons c s ih =>
    obtain ⟨hc, hs⟩ := not_or.1 (List.mem_cons.not.1 h)
    have hn : (p.next c).column = p.column + 1 := by simp [next, Ne.symm hc]
    rw [after_cons, ih _ hs, hn, List.length_cons]
    omega

theorem after_line_eq (p : Position) (h : '\n' ∉ s) : (p.after s).line = p.line := by
  rw [after_line, List.count_eq_zero.2 h, Nat.add_zero]

theorem after_eq_self (h : p.after s = p) : s = [] := by
  have hn : '\n' ∉ s := by
    have hline := after_line p s
    rw [h] at hline
    exact List.count_eq_zero.1 (by omega)
  have hcolumn := after_column p hn
  rw [h] at hcolumn
  exact List.length_eq_zero_iff.1 (by omega)

/-- In one text a position is behind one prefix only. -/
theorem after_inj (h : p.after s = p.after t) (ht : s ++ u = t ++ v) : s = t := by
  rcases List.append_eq_append_iff.1 ht with ⟨w, rfl, -⟩ | ⟨w, rfl, -⟩
  · rw [after_append] at h
    rw [after_eq_self h.symm, List.append_nil]
  · rw [after_append] at h
    rw [after_eq_self h, List.append_nil]

end Prefixes

end Position

/-! ### Lines that take a comment -/

/-- A newline stands at `place` as a token, and what it ends is neither a heredoc nor a line comment. -/
structure EndsLine (x : Lexed) (place : Position) : Prop where
  token : ∃ before endLine after, x.tokens = before ++ ⟨.newline, place, endLine⟩ :: after ∧
    ∀ t ∈ before.getLast?, t.token.isHeredoc = false
  comment : ∀ c ∈ x.comments, c.endLine = place.line → ['/', '*'] <+: c.text.toList

namespace Lexer

section Lexemes

variable {p : Position} {s : List Char} {l : Lexeme} {ls ls' : List Lexeme}

theorem Chain.start_eq (h : Chain p (ls ++ l :: ls')) : l.start = p.after (ls.flatMap Lexeme.text) := by
  induction ls generalizing p with
  | nil => exact h.1
  | cons m ls ih =>
    obtain ⟨-, -, -, h⟩ := h
    rw [List.flatMap_cons, Position.after_append]
    exact ih h

/-- A comment without the mark of a block comment is in one line. -/
theorem lexeme_lineComment {c : Char} {r : List Char} {k : Cut} (h : lexeme p c r = .ok (.comment, k))
    (hb : ¬ ['/', '*'] <+: k.taken) : '\n' ∉ k.taken := by
  unfold lexeme at h
  split at h
  · cases h
  split at h
  · next hc =>
    cases h
    have hne : c ≠ '\n' := by
      rintro rfl
      simp at hc
    intro hmem
    rcases List.mem_cons.1 hmem with rfl | hmem
    · exact hne rfl
    · have hd := List.mem_takeWhile_imp (p := (· != '\n')) hmem
      simp at hd
  split at h
  · split at h
    · cases h
    · cases h
      exact absurd (List.prefix_append _ _) hb
  · obtain ⟨y, -, hy⟩ := Document.eq_ok_of_map h
    cases hy

theorem lineComment_of_mem (h : lexemes p s = .ok ls) (hl : l ∈ ls) (hi : l.item = .comment)
    (hb : ¬ ['/', '*'] <+: l.text) : '\n' ∉ l.text := by
  induction ls generalizing p s with
  | nil => cases hl
  | cons m ls ih =>
    obtain ⟨c, v, rest, htext, -, -, hlex, hmore⟩ := lexemes_cons_inv h
    rcases List.mem_cons.1 hl with rfl | hl
    · rw [hi, ← htext] at hlex
      exact lexeme_lineComment hlex hb
    · exact ih hmore hl

/-- A lexeme without a newline ends in the line where it starts. -/
theorem Lexeme.endLine_eq (h : '\n' ∉ l.text) : l.endLine = (l.start.after l.text).line := by
  have hd : '\n' ∉ l.text.dropLast := fun hmem => h ((List.dropLast_sublist l.text).subset hmem)
  rw [endLine, Position.after_line_eq _ hd, Position.after_line_eq _ h]

/-- The lexemes before a newline that ends a line which takes a comment; the last of them does not fill the line. -/
theorem lexemes_of_endsLine {pre post : List Char} {finish : Position}
    (h : lexemes .start (pre ++ '\n' :: post) = .ok ls)
    (he : EndsLine ⟨ls.filterMap Lexeme.token?, ls.filterMap Lexeme.comment?, finish⟩ (Position.start.after pre)) :
    ∃ before after, ls = before ++ after ∧ before.flatMap Lexeme.text = pre ∧
      ∀ l ∈ before.getLast?, ¬ l.item.FillsLine l.text := by
  obtain ⟨⟨ts, endLine, us, htokens, hlast⟩, hcomment⟩ := he
  simp only at htokens hcomment
  obtain ⟨as, bs, rfl, rfl, hbs⟩ := List.filterMap_eq_append_iff.1 htokens
  obtain ⟨blanks, l, cs, rfl, hblanks, hl, -⟩ := List.filterMap_eq_cons_iff.1 hbs
  have hnone : blanks.filterMap Lexeme.token? = [] := List.filterMap_eq_nil_iff.2 hblanks
  rw [← List.append_assoc] at h hcomment
  have hpre : (as ++ blanks).flatMap Lexeme.text = pre := by
    have hstart : Position.start.after pre = l.start := Lexeme.token?_start hl
    rw [(chain_of_lexemes h).start_eq] at hstart
    have htext := lexemes_text h
    rw [List.flatMap_append] at htext
    exact Position.after_inj hstart.symm htext
  refine ⟨as ++ blanks, l :: cs, (List.append_assoc _ _ _).symm, hpre, fun m hm hfill => ?_⟩
  obtain ⟨ms, hms⟩ := List.getLast?_eq_some_iff.1 hm
  rw [hms] at h hcomment hpre
  have hmem : m ∈ ms ++ [m] ++ l :: cs := by simp
  cases hi : m.item with
  | blank =>
    rw [hi] at hfill
    exact hfill
  | token t =>
    rw [hi] at hfill
    have htok : m.token? = some ⟨t, m.start, m.endLine⟩ := by simp [Lexeme.token?, hi]
    have has : as.filterMap Lexeme.token? = ms.filterMap Lexeme.token? ++ [⟨t, m.start, m.endLine⟩] := by
      have happ := congrArg (List.filterMap Lexeme.token?) hms
      simpa [hnone, htok] using happ
    have hno := hlast ⟨t, m.start, m.endLine⟩ (by rw [has, List.getLast?_concat]; rfl)
    exact Bool.false_ne_true (hno.symm.trans hfill)
  | comment =>
    rw [hi] at hfill
    -- the comment ends in the line of the newline, so that it must be a block comment
    have hline : m.endLine = (Position.start.after pre).line := by
      have hstart : m.start = Position.start.after (ms.flatMap Lexeme.text) :=
        (chain_of_lexemes (List.append_assoc _ _ _ ▸ h)).start_eq
      rw [Lexeme.endLine_eq (lineComment_of_mem h hmem hi hfill), hstart, ← Position.after_append, ← hpre]
      simp
    have hc : m.comment? = some ⟨String.ofList m.text, m.start.line, m.endLine⟩ := by simp [Lexeme.comment?, hi]
    have hb := hcomment _ (List.mem_filterMap.2 ⟨m, hmem, hc⟩) hline
    rw [String.toList_ofList] at hb
    exact hfill hb

/-- A line comment with a space in front of it, before a newline. -/
theorem read_comment (p : Position) {text : List Char} (h : '\n' ∉ text) (post : List Char) :
    read p (' ' :: '#' :: (text ++ '\n' :: post)) = (read (p.next '\n') post).map fun (ts, cs) =>
      (⟨.newline, p.after (' ' :: '#' :: text), p.line⟩ :: ts,
        ⟨String.ofList ('#' :: text), p.line, p.line⟩ :: cs) := by
  have hmem : '\n' ∉ '#' :: text := by simp [h]
  have hline : (p.after (' ' :: '#' :: text)).line = p.line := Position.after_line_eq p (by simp [h])
  have hnext : (p.after (' ' :: '#' :: text)).next '\n' = p.next '\n' := by
    show (⟨(p.after (' ' :: '#' :: text)).line + 1, 1⟩ : Position) = ⟨p.line + 1, 1⟩
    rw [hline]
  have hstart : (p.next ' ').line = p.line := rfl
  have hend : (⟨.comment, p.next ' ', '#' :: text⟩ : Lexeme).endLine = p.line := (Lexeme.endLine_eq hmem).trans hline
  have hspan : lineComment (text ++ '\n' :: post) = ⟨text, '\n' :: post⟩ := by
    refine span_append (fun c hc => ?_) fun c hc => ?_
    · have hne : c ≠ '\n' := fun he => h (he ▸ hc)
      simp [hne]
    · obtain rfl : '\n' = c := Option.some.inj hc
      rfl
  have hlex : lexeme (p.next ' ') '#' (text ++ '\n' :: post) = .ok (.comment, ⟨'#' :: text, '\n' :: post⟩) := by
    simp [lexeme, isBlankChar, hspan, Cut.onto]
  have hblank : read p (' ' :: '#' :: (text ++ '\n' :: post)) = read (p.next ' ') ('#' :: (text ++ '\n' :: post)) :=
    read_blanks (s := [' ']) (by simp [isBlankChar])
  rw [hblank, read_cons hlex, ← Position.after_cons, read_newline, hnext, hline]
  cases read (p.next '\n') post with
  | error e => rfl
  | ok x => simp [Except.map, Lexeme.token?, Lexeme.comment?, hend, hstart]

end Lexemes

end Lexer

section Texts

variable {pre post text filename : String} {x : Lexed} {d : Document} {w : List Warning}

/-- Put before the newline, a line comment is one more comment, and of the tokens only the column of the newline
changes. -/
theorem lex_insert (hx : lex (pre ++ "\n" ++ post) = .ok x) (he : EndsLine x (Position.start.after pre.toList))
    (ht : '\n' ∉ text.toList) :
    ∃ y cs cs', lex (pre ++ (" #" ++ text) ++ "\n" ++ post) = .ok y ∧
      List.Forall₂ (Document.Moved 0) x.tokens y.tokens ∧ x.comments = cs ++ cs' ∧
      y.comments = cs ++ ⟨"#" ++ text, (Position.start.after pre.toList).line,
        (Position.start.after pre.toList).line⟩ :: cs' := by
  obtain ⟨ls, hls, rfl⟩ := Document.eq_ok_of_map hx
  have hsource : (pre ++ "\n" ++ post).toList = pre.toList ++ '\n' :: post.toList := by simp
  rw [hsource] at hls
  obtain ⟨before, after, rfl, hpre, hlast⟩ := Lexer.lexemes_of_endsLine hls he
  have hnewline : LineEnd ('\n' :: post.toList) := lineEnd_newline
  have hspace : Halts (' ' :: '#' :: (text.toList ++ '\n' :: post.toList)) := halts_space
  have hold := Lexer.read_before hls hpre hnewline.halts hnewline.halts fun l hl hfill => absurd hfill (hlast l hl)
  have hnew := Lexer.read_before hls hpre hnewline.halts hspace fun l hl hfill => absurd hfill (hlast l hl)
  rw [Lexer.read_newline] at hold
  rw [Lexer.read_comment _ ht] at hnew
  have hread : Lexer.read .start (pre.toList ++ '\n' :: post.toList) =
      .ok ((before ++ after).filterMap Lexer.Lexeme.token?, (before ++ after).filterMap Lexer.Lexeme.comment?) := by
    rw [Lexer.read, hls]
    rfl
  -- behind the newline both texts are read alike
  obtain ⟨r, hr, hsplit⟩ := Document.eq_ok_of_map (hold.symm.trans hread)
  obtain ⟨⟨ts, cs⟩, hrest, rfl⟩ := Document.eq_ok_of_map hr
  obtain ⟨htokens, hcomments⟩ := Prod.mk.inj hsplit
  rw [hrest] at hnew
  have htarget : (pre ++ (" #" ++ text) ++ "\n" ++ post).toList =
      pre.toList ++ ' ' :: '#' :: (text.toList ++ '\n' :: post.toList) := by simp
  have htext : String.ofList ('#' :: text.toList) = "#" ++ text := by
    rw [← String.toList_inj]
    simp
  have hline : ((Position.start.after pre.toList).after (' ' :: '#' :: text.toList)).line =
      (Position.start.after pre.toList).line := Position.after_line_eq _ (by simp [ht])
  have hlex := Lexer.lex_eq_read (pre ++ (" #" ++ text) ++ "\n" ++ post)
  rw [htarget, hnew, htext] at hlex
  refine ⟨_, _, cs, hlex, ?_, hcomments.symm, rfl⟩
  show List.Forall₂ _ ((before ++ after).filterMap Lexer.Lexeme.token?) _
  rw [← htokens]
  exact List.rel_append (Document.moved_zero _) (.cons ⟨rfl, hline, rfl⟩ (Document.moved_zero ts))

/-- Put before the newline, a line comment changes neither the blocks nor the warnings. -/
theorem Document.parse_insert (hd : parse filename (pre ++ "\n" ++ post) = ⟨w, .ok d⟩)
    (hx : lex (pre ++ "\n" ++ post) = .ok x) (he : EndsLine x (Position.start.after pre.toList))
    (ht : '\n' ∉ text.toList) :
    ∃ cs cs', d.comments = cs ++ cs' ∧
      parse filename (pre ++ (" #" ++ text) ++ "\n" ++ post) =
        ⟨w, .ok ⟨d.blocks, cs ++ ⟨"#" ++ text, (Position.start.after pre.toList).line,
          (Position.start.after pre.toList).line⟩ :: cs'⟩⟩ := by
  obtain ⟨x', hx', hc, hrun⟩ := parse_ok_inv hd
  obtain rfl : x = x' := Except.ok.inj (hx.symm.trans hx')
  obtain ⟨y, cs, cs', hy, hm, hcs, hcomments⟩ := lex_insert hx he ht
  refine ⟨cs, cs', hc.trans hcs, ?_⟩
  rw [← hcomments]
  exact parse_of_run hy (run_columns y.finish hrun hm)

end Texts

end InfraAudit.Hcl
