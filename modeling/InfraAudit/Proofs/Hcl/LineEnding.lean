import InfraAudit.Proofs.Hcl.CarriageReturn
import InfraAudit.Proofs.Hcl.Displacement

/-!
# InfraAudit.Proofs.Hcl.LineEnding — texts with carriage returns

* `lexeme_ends`: no lexeme but a newline ends with one.
* `lexeme_returned`: a lexeme ends at the same place if there are carriage returns before newlines.
* `read_returned`: a text has the same tokens, as far as they are known, and its comments, in the same lines.
* `parse_returned`: a text that is read is read with carriage returns, with the same blocks and warnings.
-/

namespace InfraAudit.Hcl

open InfraAudit.Text

/-! ### The last line of a lexeme -/

/-- The text ends with a character of its last line. -/
def EndsInLine (s : List Char) : Prop :=
  ∃ w d, s = w ++ [d] ∧ d ≠ '\n'

section Ends

variable {p q : Position} {c : Char} {r s t m : List Char} {k : Cut} {f : List Char → Cut}

theorem EndsInLine.append_left (h : EndsInLine s) (t : List Char) : EndsInLine (t ++ s) := by
  obtain ⟨w, d, rfl, hd⟩ := h
  exact ⟨t ++ w, d, (List.append_assoc _ _ _).symm, hd⟩

theorem endsInLine_of_not_mem (hne : s ≠ []) (h : '\n' ∉ s) : EndsInLine s := by
  obtain ⟨w, d, rfl⟩ := (List.eq_nil_or_concat' s).resolve_left hne
  exact ⟨w, d, rfl, fun hd => h (by simp [hd])⟩

namespace Heredoc

theorem body?_ends {lines : List (List Char)} (h : body? m s = some (lines, k)) (hm : m ≠ []) :
    EndsInLine k.taken := by
  fun_induction body? m s generalizing lines k with
  | case1 => cases h
  | case2 s hs line =>
    rename_i ht
    cases h
    refine endsInLine_of_not_mem (fun hnil => hm ?_) (newline_not_mem_takeWhile s)
    have hline : line = [] := hnil
    rw [← ht, hline]
    rfl
  | case3 => cases h
  | case4 s hs line ht =>
    rename_i ih
    obtain ⟨⟨more, j⟩, hj, he⟩ := Option.map_eq_some_iff.1 h
    cases he
    exact (ih hj).append_left _

end Heredoc

namespace Lexer

theorem Lexeme.endLine_of_ends {l : Lexeme} (h : EndsInLine l.text) :
    l.endLine = l.start.line + l.text.count '\n' := by
  obtain ⟨w, d, hw, hd⟩ := h
  rw [Lexeme.endLine, Position.after_line, hw, List.dropLast_concat, List.count_append,
    List.count_singleton, if_neg (by simpa using hd), Nat.add_zero]

theorem blockComment?_ends (h : blockComment? s = some k) : EndsInLine k.taken := by
  fun_induction blockComment? s generalizing k with
  | case1 => cases h; exact ⟨['*'], '/', rfl, by decide⟩
  | case2 c r _ ih =>
    obtain ⟨j, hj, rfl⟩ := Option.map_eq_some_iff.1 h
    exact (ih hj).append_left [c]
  | case3 => cases h

/-- A word that ends where texts halt stays in its line. -/
theorem not_mem_of_before (hf : ∀ {t}, Halts t → ∀ s, f (s ++ t) = (f s).before t) (hof : ∀ s, Cut.Of s (f s))
    (s : List Char) : '\n' ∉ (f s).taken := by
  have hs : s.takeWhile (· != '\n') ++ s.dropWhile (· != '\n') = s := List.takeWhile_append_dropWhile
  have hcut : (f (s.takeWhile (· != '\n'))).taken ++ (f (s.takeWhile (· != '\n'))).rest =
      s.takeWhile (· != '\n') := hof _
  have htaken : (f s).taken = (f (s.takeWhile (· != '\n'))).taken := by
    conv_lhs => rw [← hs, hf (lineEnd_dropWhile s).halts]
    rfl
  intro hm
  rw [htaken] at hm
  exact newline_not_mem_takeWhile s (hcut ▸ List.mem_append_left _ hm)

theorem punctuation?_unbroken {tok : Token} (h : punctuation? c r = some (tok, k)) (hn : c ≠ '\n') :
    '\n' ∉ k.taken := by
  have hc : '\n' ∉ [c] := by simpa using Ne.symm hn
  unfold punctuation? at h
  split at h
  · cases h
    simp
  · next d w _ =>
    split at h
    · next hp =>
      cases h
      have hd : d ≠ '\n' := by
        rintro rfl
        have hw : Halts ('\n' :: w) := lineEnd_newline.halts
        rw [pair?_halts hw] at hp
        cases hp
      simpa using ⟨Ne.symm hn, Ne.symm hd⟩
    · obtain ⟨_, -, he⟩ := Option.map_eq_some_iff.1 h
      cases he
      exact hc
  · obtain ⟨_, -, he⟩ := Option.map_eq_some_iff.1 h
    cases he
    exact hc

/-- No token but a newline ends with one. -/
theorem token_ends {tok : Token} (h : token p c r = .ok (tok, k)) (hn : c ≠ '\n') : EndsInLine k.taken := by
  unfold token at h
  rw [if_neg (by simpa using hn)] at h
  have htail {f : List Char → Cut} (hf : ∀ {t}, Halts t → ∀ s, f (s ++ t) = (f s).before t)
      (hof : ∀ s, Cut.Of s (f s)) : EndsInLine ((f r).onto [c]).taken := by
    refine endsInLine_of_not_mem (List.cons_ne_nil _ _) fun hm => ?_
    exact (List.mem_cons.1 hm).elim (Ne.symm hn) (not_mem_of_before hf hof r)
  split at h
  · obtain ⟨⟨x, j⟩, hj, he⟩ := Document.eq_ok_of_map h
    cases he
    obtain ⟨w, hw⟩ := literal_ends hj
    exact EndsInLine.append_left ⟨w, '"', hw, by decide⟩ ['"']
  split at h
  · unfold heredoc at h
    split at h
    · cases h
    · next hd j hj =>
      split at h
      · cases h
      · next lines i hi =>
        cases h
        exact (Heredoc.body?_ends hi (Heredoc.header?_before hj []).1).append_left _
  split at h
  · cases h
    exact htail numberTail_before numberTail_of
  split at h
  · cases h
    exact htail identifierTail_before fun s => Cut.span_of _ s
  · unfold symbol at h
    split at h
    · next x hx =>
      cases h
      exact endsInLine_of_not_mem (punctuation?_of hx).2 (punctuation?_unbroken hx hn)
    · cases h

/-- No lexeme but a newline ends with one. -/
theorem lexeme_ends {item : Item} (h : lexeme p c r = .ok (item, k)) (hn : c ≠ '\n') : EndsInLine k.taken := by
  unfold lexeme at h
  split at h
  · next hc =>
    cases h
    refine endsInLine_of_not_mem (List.cons_ne_nil _ _) fun hm => ?_
    rcases List.mem_cons.1 hm with he | hm
    · exact hn he.symm
    · exact absurd (List.mem_takeWhile_imp hm) (by decide)
  split at h
  · cases h
    refine endsInLine_of_not_mem (List.cons_ne_nil _ _) fun hm => ?_
    exact (List.mem_cons.1 hm).elim (Ne.symm hn) (newline_not_mem_takeWhile r)
  split at h
  · split at h
    · cases h
    · next j hj =>
      cases h
      exact (blockComment?_ends hj).append_left ['/', '*']
  · obtain ⟨⟨tok, j⟩, hj, he⟩ := Document.eq_ok_of_map h
    cases he
    exact token_ends hj hn

end Lexer

end Ends

/-! ### Lexemes -/

namespace Lexer

section Lexemes

variable {p : Position} {c : Char} {r r' s s' : List Char} {k : Cut} {f : List Char → Cut} {tok : Token}

/-- A word that ends where texts halt is the same before carriage returns. -/
theorem word_returned (hf : ∀ {t}, Halts t → ∀ s, f (s ++ t) = (f s).before t) (hof : ∀ s, Cut.Of s (f s))
    (hr : Returned r r') : (f r').taken = (f r).taken ∧ Returned (f r).rest (f r').rest := by
  obtain ⟨u, t, t', rfl, rfl, hn, ht, ht'⟩ := hr.halts
  have hu : (f u).taken ++ (f u).rest = u := hof u
  rw [hf ht, hf ht']
  rw [← hu, List.append_assoc, List.append_assoc] at hr
  exact ⟨rfl, hr.append_cancel fun hm => hn (hu ▸ List.mem_append_left _ hm)⟩

theorem symbol_returned (h : symbol p c r = .ok (tok, k)) (hn : c ≠ '\n') (hr : Returned r r') (q : Position) :
    ∃ k', symbol q c r' = .ok (tok, k') ∧ Returned k.rest k'.rest := by
  obtain ⟨u, t, t', rfl, rfl, -, ht, ht'⟩ := hr.halts
  unfold symbol at h
  rw [punctuation?_before ht] at h
  cases hp : punctuation? c u with
  | none =>
    rw [hp] at h
    cases h
  | some x =>
    obtain ⟨tok', j⟩ := x
    rw [hp] at h
    cases h
    obtain ⟨hcut, hne⟩ := punctuation?_of hp
    have hj : j.taken ++ j.rest = c :: u := hcut
    obtain ⟨d, v, hv⟩ := List.exists_cons_of_ne_nil hne
    simp only at hv
    rw [hv, List.cons_append, List.cons.injEq] at hj
    obtain ⟨rfl, rfl⟩ := hj
    have hvn : '\n' ∉ v := fun hm => punctuation?_unbroken hp hn (by simp [hv, hm])
    rw [List.append_assoc, List.append_assoc] at hr
    refine ⟨j.before t', ?_, hr.append_cancel hvn⟩
    rw [symbol, punctuation?_before ht', hp]
    rfl

/-- A token is the same, as far as it is known, and ends at the same place. -/
theorem token_returned (h : token p c r = .ok (tok, k)) (hn : c ≠ '\n') (hr : Returned r r') (q : Position) :
    ∃ tok' k', token q c r' = .ok (tok', k') ∧ tok'.known = tok.known ∧ Returned k.rest k'.rest := by
  have hn' : ¬ (c == '\n') = true := by simpa using hn
  have hhead := hr.head?_beq (d := '<') (by decide)
  unfold token at h ⊢
  rw [if_neg hn'] at h ⊢
  rw [hhead]
  by_cases hq : (c == '"') = true
  · rw [if_pos hq] at h ⊢
    obtain ⟨⟨x, j⟩, hx, he⟩ := Document.eq_ok_of_map h
    cases he
    obtain ⟨x', j', hx', ht, hv, hrest⟩ := Quotation.literal_returned hx hr q (q.next '"')
    refine ⟨.string (String.ofList x'.value) x'.templated, j'.onto ['"'], by rw [quotation, hx']; rfl, ?_, hrest⟩
    obtain ⟨value, templated⟩ := x
    obtain ⟨value', templated'⟩ := x'
    obtain rfl : templated' = templated := ht
    cases templated' with
    | true => rfl
    | false =>
      obtain rfl : value' = value := hv rfl
      rfl
  rw [if_neg hq] at h ⊢
  by_cases hh : (c == '<' && r.head? == some '<') = true
  · rw [if_pos hh] at h ⊢
    obtain ⟨-, hr'⟩ : c = '<' ∧ r.head? = some '<' := by simpa using hh
    obtain ⟨s, rfl⟩ := List.head?_eq_some_iff.1 hr'
    obtain ⟨s', rfl, hs⟩ := hr.cons_inv (by decide)
    obtain ⟨k', hk', hrest⟩ := heredoc_returned h hs q
    exact ⟨tok, k', hk', rfl, hrest⟩
  rw [if_neg hh] at h ⊢
  by_cases hd : isDigit c = true
  · rw [if_pos hd] at h ⊢
    cases h
    obtain ⟨ht, hrest⟩ := word_returned numberTail_before numberTail_of hr
    refine ⟨_, _, rfl, ?_, hrest⟩
    rw [Cut.onto, Cut.onto, ht]
  rw [if_neg hd] at h ⊢
  by_cases hi : isIdentStart c = true
  · rw [if_pos hi] at h ⊢
    cases h
    obtain ⟨ht, hrest⟩ := word_returned identifierTail_before (fun s => Cut.span_of _ s) hr
    refine ⟨_, _, rfl, ?_, hrest⟩
    rw [Cut.onto, Cut.onto, ht]
  rw [if_neg hi] at h ⊢
  obtain ⟨k', hk', hrest⟩ := symbol_returned h hn hr q
  exact ⟨tok, k', hk', rfl, hrest⟩

/-- The same lexeme with carriage returns: a comment has them in its text, a token is the same as far as it is
known. -/
inductive SameItem : Item → List Char → Item → List Char → Prop
  | comment {v v' : List Char} (h : Returned v v') : SameItem .comment v .comment v'
  | token {t t' : Token} (h : t'.known = t.known) (v v' : List Char) : SameItem (.token t) v (.token t') v'

/-- A lexeme other than blanks and newlines is the same before carriage returns, and ends at the same place. -/
theorem lexeme_returned {item : Item} (h : lexeme p c r = .ok (item, k)) (hb : isBlankChar c = false)
    (hn : c ≠ '\n') (hr : Returned r r') (q : Position) :
    ∃ item' k', lexeme q c r' = .ok (item', k') ∧ SameItem item k.taken item' k'.taken ∧ Returned k.rest k'.rest := by
  have hslash := hr.head?_beq (d := '/') (by decide)
  have hstar := hr.head?_beq (d := '*') (by decide)
  have hcr : c ≠ '\r' := by
    rintro rfl
    simp [isBlankChar] at hb
  unfold lexeme at h ⊢
  rw [hslash, hstar]
  rw [if_neg (by simp [hb])] at h ⊢
  by_cases hline : (c == '#' || (c == '/' && r.head? == some '/')) = true
  · rw [if_pos hline] at h ⊢
    cases h
    obtain ⟨htaken, hrest⟩ := hr.line
    refine ⟨_, _, rfl, .comment (.cons hcr (fun he => ?_) htaken), hrest⟩
    simp [he] at hline
  rw [if_neg hline] at h ⊢
  by_cases hblock : (c == '/' && r.head? == some '*') = true
  · rw [if_pos hblock] at h ⊢
    obtain ⟨rfl, hr'⟩ : c = '/' ∧ r.head? = some '*' := by simpa using hblock
    obtain ⟨s, rfl⟩ := List.head?_eq_some_iff.1 hr'
    obtain ⟨s', rfl, hs⟩ := hr.cons_inv (by decide)
    simp only [List.drop_one, List.tail_cons] at h ⊢
    split at h
    · cases h
    · next j hj =>
      cases h
      obtain ⟨j', hj', htaken, hrest⟩ := blockComment?_returned hj hs
      refine ⟨.comment, j'.onto ['/', '*'], by rw [hj'], .comment ?_, hrest⟩
      exact .cons (by decide) (by simp) (.cons (by decide) (by simp) htaken)
  rw [if_neg hblock] at h ⊢
  obtain ⟨⟨tok, j⟩, hj, he⟩ := Document.eq_ok_of_map h
  cases he
  obtain ⟨tok', j', hj', hknown, hrest⟩ := token_returned hj hn hr q
  exact ⟨.token tok', j', by rw [hj']; rfl, .token hknown _ _, hrest⟩

end Lexemes

end Lexer

/-! ### Texts -/

/-- The same comment with carriage returns in its text. -/
structure Comment.Returned (c c' : Comment) : Prop where
  text : Hcl.Returned c.text.toList c'.text.toList
  line : c'.line = c.line
  endLine : c'.endLine = c.endLine

namespace Lexer

section Texts

open Document

variable {p q : Position} {s s' : List Char} {l l' : Lexeme} {ls : List Lexeme}

theorem filterMap_cons_toList {α β : Type} (f : α → Option β) (a : α) (as : List α) :
    (a :: as).filterMap f = (f a).toList ++ as.filterMap f := by
  cases h : f a <;> simp [h]

/-- What a lexeme gives, if it is the same with carriage returns and has as many lines. -/
theorem same_of_sameItem (h : SameItem l.item l.text l'.item l'.text) (hl : l'.start.line = l.start.line)
    (he : l'.endLine = l.endLine) :
    List.Forall₂ (Moved 0) l.token?.toList l'.token?.toList ∧
      List.Forall₂ Comment.Returned l.comment?.toList l'.comment?.toList := by
  obtain ⟨item, start, text⟩ := l
  obtain ⟨item', start', text'⟩ := l'
  cases h with
  | comment h => exact ⟨.nil, .cons ⟨by simpa using h, hl, he⟩ .nil⟩
  | token h => exact ⟨.cons ⟨h, hl, he⟩ .nil, .nil⟩

/-- A text has the same tokens with carriage returns, as far as they are known, and the same comments. -/
theorem read_returned (h : lexemes p s = .ok ls) (hs : Returned s s') (hq : q.line = p.line) :
    ∃ ts cs, read q s' = .ok (ts, cs) ∧ List.Forall₂ (Moved 0) (ls.filterMap Lexeme.token?) ts ∧
      List.Forall₂ Comment.Returned (ls.filterMap Lexeme.comment?) cs := by
  have hnil (q : Position) : read q [] = .ok ([], []) := by
    rw [read, lexemes]
    rfl
  induction ls generalizing p q s s' with
  | nil =>
    have htext : [] = s := lexemes_text h
    subst htext
    cases hs with
    | nil => exact ⟨[], [], hnil q, .nil, .nil⟩
    | last =>
      have hblank : ∀ c ∈ ['\r'], isBlankChar c = true := by simp [isBlankChar]
      exact ⟨[], [], (read_blanks (t := []) hblank).trans (hnil _), .nil, .nil⟩
  | cons l ls ih =>
    obtain ⟨c, v, rest, htext, rfl, hstart, hlex, hmore⟩ := lexemes_cons_inv h
    obtain ⟨item, start, text⟩ := l
    simp only at htext hstart hlex hmore
    subst htext hstart
    by_cases hb : isBlankChar c = true
    · obtain rfl : Item.blank = item := by
        rw [lexeme_blank start hb] at hlex
        exact (Prod.mk.inj (Except.ok.inj hlex)).1
      have hblank : ∀ d ∈ c :: v, isBlankChar d = true := lexeme_spelled hlex
      rw [← List.cons_append] at hs
      obtain ⟨rest', rfl, hrest⟩ := hs.append_inv fun hm => absurd (hblank _ hm) (by decide)
      have hline : (q.after (c :: v)).line = (start.after (c :: v)).line := by
        rw [Position.after_line, Position.after_line, hq]
      obtain ⟨ts, cs, hread, hts, hcs⟩ := ih hmore hrest hline
      exact ⟨ts, cs, (read_blanks hblank).trans hread, hts, hcs⟩
    by_cases hn : c = '\n'
    · subst hn
      obtain ⟨rfl, rfl⟩ : Item.token .newline = item ∧ [] = v := by
        simpa [lexeme, token, isBlankChar, Except.map] using hlex
      have newline {q : Position} (hq : q.line = start.line) {r' : List Char} (hr : Returned rest r') :
          ∃ ts cs, read q ('\n' :: r') = .ok (ts, cs) ∧
            List.Forall₂ (Moved 0) (⟨.newline, start, start.line⟩ :: ls.filterMap Lexeme.token?) ts ∧
            List.Forall₂ Comment.Returned (ls.filterMap Lexeme.comment?) cs := by
        have hline : (q.next '\n').line = (start.next '\n').line := congrArg (· + 1) hq
        obtain ⟨ts, cs, hread, hts, hcs⟩ := ih hmore hr hline
        exact ⟨⟨.newline, q, q.line⟩ :: ts, cs, by rw [read_newline, hread]; rfl, .cons ⟨rfl, hq, hq⟩ hts, hcs⟩
      cases hs with
      | cons _ _ hr => exact newline hq hr
      | newline hr =>
        have hblank : ∀ c ∈ ['\r'], isBlankChar c = true := by simp [isBlankChar]
        obtain ⟨ts, cs, hread, hts, hcs⟩ := newline (q := q.next '\r') hq hr
        exact ⟨ts, cs, (read_blanks hblank).trans hread, hts, hcs⟩
    obtain ⟨r', rfl, hr⟩ := hs.cons_inv hn
    obtain ⟨item', k', hlex', hsame, hrest⟩ := lexeme_returned hlex (by simpa using hb) hn hr q
    have hcount : k'.taken.count '\n' = (c :: v).count '\n' :=
      hs.count_taken (lexeme_of hlex).1 (lexeme_of hlex').1 hrest
    have hline : (q.after k'.taken).line = (start.after (c :: v)).line := by
      rw [Position.after_line, Position.after_line, hq, hcount]
    obtain ⟨ts, cs, hread, hts, hcs⟩ := ih hmore hrest hline
    have hend : (⟨item', q, k'.taken⟩ : Lexeme).endLine = (⟨item, start, c :: v⟩ : Lexeme).endLine := by
      rw [Lexeme.endLine_of_ends (lexeme_ends hlex' hn), Lexeme.endLine_of_ends (lexeme_ends hlex hn), hcount, hq]
    obtain ⟨htoken, hcomment⟩ := same_of_sameItem hsame hq hend
    refine ⟨_, _, by rw [read_cons hlex', hread]; rfl, ?_, ?_⟩
    · rw [filterMap_cons_toList]
      exact List.rel_append htoken hts
    · rw [filterMap_cons_toList]
      exact List.rel_append hcomment hcs

end Texts

end Lexer

namespace Document

/-- A text that is read is read with carriage returns: the blocks and the warnings are the same, and so are the
comments but for the returns in them. -/
theorem parse_returned {filename s s' : String} {d : Document} {w : List Warning}
    (h : parse filename s = ⟨w, .ok d⟩) (hs : Returned s.toList s'.toList) :
    ∃ cs, parse filename s' = ⟨w, .ok ⟨d.blocks, cs⟩⟩ ∧ List.Forall₂ Comment.Returned d.comments cs := by
  obtain ⟨x, hx, hdc, hrun⟩ := parse_ok_inv h
  obtain ⟨ls, hls, rfl⟩ := eq_ok_of_map hx
  obtain ⟨ts, cs, hread, hts, hcs⟩ := Lexer.read_returned hls hs (q := .start) rfl
  have hlex : lex s' = .ok ⟨ts, cs, Position.start.after s'.toList⟩ := by
    rw [Lexer.lex_eq_read, hread]
    rfl
  exact ⟨cs, parse_of_run hlex (run_columns _ hrun hts), hdc ▸ hcs⟩

end Document

end InfraAudit.Hcl
