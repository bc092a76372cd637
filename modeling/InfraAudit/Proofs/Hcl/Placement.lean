import InfraAudit.Hcl.Document
import Mathlib.Data.List.Induction
import Mathlib.Data.List.TakeWhile

/-!
# InfraAudit.Proofs.Hcl.Placement — where the lexemes of a text stand

* `Position.ofOffset`: the line and the column of an offset, counted from the text.
* `Token.Spelled`: how a token stands in the text.
* `Lexer.Chain`: the lexemes follow one another, each spelled as its kind demands; `chain_of_lexemes` says that
  those of a text do.
* `InOrder`: the lines of the tokens never decrease, which is what ranges need.
* `Layout`: stretches of the text for tokens and comments, with nothing but blanks outside.  `layout_of_lex` gives
  one for every text that has tokens.
-/

namespace InfraAudit.Hcl

open InfraAudit.Text

/-! ### Lines and columns -/

/-- The position of an offset: one line more than there are newlines before it, and one column more than there are
characters since the last of them. -/
def Position.ofOffset (s : List Char) (n : Nat) : Position :=
  ⟨1 + (s.take n).count '\n', 1 + ((s.take n).reverse.takeWhile (· != '\n')).length⟩

namespace Position

theorem after_concat (p : Position) (s : List Char) (c : Char) : p.after (s ++ [c]) = (p.after s).next c := by
  rw [after_append]
  rfl

theorem after_line (p : Position) (s : List Char) : (p.after s).line = p.line + s.count '\n' := by
  induction s generalizing p with
  | nil => rfl
  | cons c s ih =>
    rw [after_cons, ih]
    by_cases hc : c = '\n'
    · simp [next, hc]
      omega
    · simp [next, hc]

/-- Position and text determine each other as one counts from the start. -/
theorem start_after (s : List Char) :
    start.after s = ⟨1 + s.count '\n', 1 + (s.reverse.takeWhile (· != '\n')).length⟩ := by
  induction s using List.reverseRecOn with
  | nil => rfl
  | append_singleton s c ih =>
    rw [after_concat, ih]
    by_cases hc : c = '\n'
    · simp [next, hc]
      omega
    · simp [next, hc]
      omega

theorem start_after_take (s : List Char) (n : Nat) : start.after (s.take n) = ofOffset s n :=
  start_after (s.take n)

theorem line_le_after (p : Position) (s : List Char) : p.line ≤ (p.after s).line := by
  rw [after_line]
  omega

end Position

/-! ### Spelling -/

/-- How a token stands in the text: as its value or its sign; a string between quotes, a heredoc behind its mark. -/
def Token.Spelled : Token → List Char → Prop
  | .identifier name, s => s = name.toList
  | .number literal, s => s = literal.toList
  | .string _ _, s => ∃ r, s = '"' :: (r ++ ['"'])
  | .heredoc _ _, s => ['<', '<'] <+: s
  | .opening .round, s => s = ['(']
  | .opening .square, s => s = ['[']
  | .opening .curly, s => s = ['{']
  | .closing .round, s => s = [')']
  | .closing .square, s => s = [']']
  | .closing .curly, s => s = ['}']
  | .equals, s => s = ['=']
  | .comma, s => s = [',']
  | .colon, s => s = [':']
  | .dot, s => s = ['.']
  | .question, s => s = ['?']
  | .ellipsis, s => s = ['.', '.', '.']
  | .operator symbol, s => s = symbol.toList
  | .newline, s => s = ['\n']

namespace Lexer

/-- How a lexeme stands in the text. -/
def Item.Spelled : Item → List Char → Prop
  | .blank, s => ∀ c ∈ s, isBlankChar c = true
  | .comment, _ => True
  | .token t, s => t.Spelled s

section Spelling

theorem pair?_spelled {c d : Char} {t : Token} (h : pair? c d = some t) : t.Spelled [c, d] := by
  unfold pair? at h
  split at h <;> cases h <;> rfl

theorem single?_spelled {c : Char} {t : Token} (h : single? c = some t) : t.Spelled [c] := by
  unfold single? at h
  split at h <;> cases h <;> rfl

theorem punctuation?_spelled {c : Char} {r : List Char} {x : Token × Cut} (h : punctuation? c r = some x) :
    x.1.Spelled x.2.taken := by
  unfold punctuation? at h
  split at h
  · cases h
    rfl
  · split at h
    · next hp =>
      cases h
      exact pair?_spelled hp
    · obtain ⟨t, ht, rfl⟩ := Option.map_eq_some_iff.1 h
      exact single?_spelled ht
  · obtain ⟨t, ht, rfl⟩ := Option.map_eq_some_iff.1 h
    exact single?_spelled ht

/-- The piece that finishes a literal is its closing quote. -/
theorem piece_finish {start p : Position} {c : Char} {r : List Char} {k : Cut}
    (h : Quotation.piece start p c r = .ok (.finish, k)) : k.taken = ['"'] := by
  unfold Quotation.piece at h
  split at h
  · cases h
  split at h
  · next hc =>
    cases h
    simpa using hc
  split at h
  · cases hx : Quotation.escape p r <;> rw [hx] at h <;> cases h
  split at h
  · split at h
    · next r' =>
      cases hx : Quotation.skipNested ((p.next c).next '{') (.sequence p 0) [] r' <;> rw [hx] at h <;> cases h
    · split at h <;> cases h
    · cases h
  · cases h

theorem literal_ends {start p : Position} {s : List Char} {x : Quotation.Contents × Cut}
    (h : Quotation.literal start p s = .ok x) : ∃ r, x.2.taken = r ++ ['"'] := by
  fun_induction Quotation.literal start p s generalizing x with
  | case1 => cases h
  | case2 => cases h
  | case3 p c r k hp =>
    cases h
    exact ⟨[], piece_finish hp⟩
  | case4 p c r value templated k hp ih =>
    obtain ⟨y, hy, rfl⟩ := Document.eq_ok_of_map h
    obtain ⟨r', hr'⟩ := ih hy
    exact ⟨k.taken ++ r', by simp [Cut.onto, hr']⟩

theorem token_spelled {p : Position} {c : Char} {r : List Char} {x : Token × Cut} (h : token p c r = .ok x) :
    x.1.Spelled x.2.taken := by
  unfold token at h
  split at h
  · next hc =>
    cases h
    obtain rfl : c = '\n' := by simpa using hc
    rfl
  split at h
  · obtain ⟨⟨y, k⟩, hy, rfl⟩ := Document.eq_ok_of_map h
    obtain ⟨r', hr'⟩ := literal_ends hy
    exact ⟨r', by simp [Cut.onto, show k.taken = r' ++ ['"'] from hr']⟩
  split at h
  · unfold heredoc at h
    split at h
    · cases h
    · split at h
      · cases h
      · cases h
        exact ⟨_, rfl⟩
  split at h
  · cases h
    exact String.toList_ofList.symm
  split at h
  · cases h
    exact String.toList_ofList.symm
  · unfold symbol at h
    split at h
    · next hx =>
      cases h
      exact punctuation?_spelled hx
    · cases h

theorem lexeme_spelled {p : Position} {c : Char} {r : List Char} {x : Item × Cut} (h : lexeme p c r = .ok x) :
    x.1.Spelled x.2.taken := by
  unfold lexeme at h
  split at h
  · next hc =>
    cases h
    intro d hd
    rcases List.mem_cons.1 hd with rfl | hd
    · exact hc
    · exact List.mem_takeWhile_imp hd
  split at h
  · cases h
    trivial
  split at h
  · split at h
    · cases h
    · cases h
      trivial
  · obtain ⟨y, hy, rfl⟩ := Document.eq_ok_of_map h
    exact token_spelled hy

end Spelling

/-! ### Lexemes in a row -/

/-- Lexemes that follow one another from the position `p` on: each starts where the one before it ends, takes some
text and is spelled as its kind demands. -/
def Chain (p : Position) : List Lexeme → Prop
  | [] => True
  | l :: ls => l.start = p ∧ l.text ≠ [] ∧ l.item.Spelled l.text ∧ Chain (p.after l.text) ls

theorem chain_of_lexemes {p : Position} {s : List Char} {ls : List Lexeme} (h : lexemes p s = .ok ls) :
    Chain p ls := by
  fun_induction lexemes p s generalizing ls with
  | case1 =>
    cases h
    trivial
  | case2 => cases h
  | case3 p c r item k hk ih =>
    obtain ⟨more, hm, rfl⟩ := Document.eq_ok_of_map h
    exact ⟨rfl, (lexeme_of hk).2, lexeme_spelled hk, ih hm⟩

end Lexer

/-! ### Tokens in order -/

/-- Tokens whose lines never decrease. -/
structure InOrder (ts : List PlacedToken) : Prop where
  lines : ts.Pairwise fun t u => t.endLine ≤ u.start.line
  one_le : ∀ t ∈ ts, 1 ≤ t.start.line
  start_le : ∀ t ∈ ts, t.start.line ≤ t.endLine

namespace InOrder

variable {t : PlacedToken} {ts us : List PlacedToken}

theorem sublist (h : InOrder us) (hs : ts.Sublist us) : InOrder ts :=
  ⟨h.lines.sublist hs, fun t ht => h.one_le t (hs.mem ht), fun t ht => h.start_le t (hs.mem ht)⟩

theorem start_le_start (h : InOrder (t :: ts)) {u : PlacedToken} (hu : u ∈ ts) : t.start.line ≤ u.start.line :=
  Nat.le_trans (h.start_le t List.mem_cons_self) (List.rel_of_pairwise_cons h.lines hu)

end InOrder

namespace Lexer

section Order

variable {l : Lexeme} {t : PlacedToken}

theorem Lexeme.token?_start (h : l.token? = some t) : t.start = l.start := by
  unfold token? at h
  split at h <;> cases h
  rfl

theorem Lexeme.token?_endLine (h : l.token? = some t) : t.endLine = l.endLine := by
  unfold token? at h
  split at h <;> cases h
  rfl

theorem Lexeme.comment?_endLine {c : Comment} (h : l.comment? = some c) : c.endLine = l.endLine := by
  unfold comment? at h
  split at h <;> cases h
  rfl

theorem Lexeme.start_le_endLine (l : Lexeme) : l.start.line ≤ l.endLine :=
  Position.line_le_after _ _

theorem Lexeme.endLine_le (l : Lexeme) : l.endLine ≤ (l.start.after l.text).line := by
  unfold endLine
  rw [Position.after_line, Position.after_line]
  have := (List.dropLast_sublist l.text).count_le '\n'
  omega

theorem Chain.le_start {p : Position} {ls : List Lexeme} (h : Chain p ls) :
    ∀ t ∈ ls.filterMap Lexeme.token?, p.line ≤ t.start.line := by
  induction ls generalizing p with
  | nil => simp
  | cons l ls ih =>
    obtain ⟨rfl, -, -, h⟩ := h
    intro t ht
    obtain ⟨m, hm, hmt⟩ := List.mem_filterMap.1 ht
    rcases List.mem_cons.1 hm with rfl | hm
    · rw [Lexeme.token?_start hmt]
    · exact Nat.le_trans (Position.line_le_after _ _) (ih h t (List.mem_filterMap.2 ⟨m, hm, hmt⟩))

/-- Lexemes in a row stand between the position of the first and that behind the last. -/
theorem Chain.bounds {p : Position} {ls : List Lexeme} (h : Chain p ls) :
    ∀ l ∈ ls, p.line ≤ l.start.line ∧ l.endLine ≤ (p.after (ls.flatMap Lexeme.text)).line := by
  induction ls generalizing p with
  | nil => simp
  | cons l ls ih =>
    obtain ⟨rfl, -, -, h⟩ := h
    rw [List.flatMap_cons, Position.after_append]
    refine List.forall_mem_cons.2 ⟨⟨Nat.le_refl _, ?_⟩, fun m hm => ?_⟩
    · exact Nat.le_trans l.endLine_le (Position.line_le_after _ _)
    · obtain ⟨h1, h2⟩ := ih h m hm
      exact ⟨Nat.le_trans (Position.line_le_after _ _) h1, h2⟩

theorem Chain.inOrder {p : Position} {ls : List Lexeme} (h : Chain p ls) (hp : 1 ≤ p.line) :
    InOrder (ls.filterMap Lexeme.token?) := by
  induction ls generalizing p with
  | nil => exact ⟨.nil, by simp, by simp⟩
  | cons l ls ih =>
    obtain ⟨rfl, -, -, h⟩ := h
    have hls := ih h (Nat.le_trans hp (Position.line_le_after _ _))
    cases hl : l.token? with
    | none => simpa [List.filterMap_cons, hl] using hls
    | some t =>
      rw [List.filterMap_cons, hl]
      have hs : t.start = l.start := Lexeme.token?_start hl
      have he : t.endLine = l.endLine := Lexeme.token?_endLine hl
      refine ⟨.cons (fun u hu => ?_) hls.lines, ?_, ?_⟩
      · rw [he]
        exact Nat.le_trans l.endLine_le (h.le_start u hu)
      · exact List.forall_mem_cons.2 ⟨hs ▸ hp, hls.one_le⟩
      · exact List.forall_mem_cons.2 ⟨by rw [hs, he]; exact l.start_le_endLine, hls.start_le⟩

end Order

end Lexer

/-- The tokens of a text are in order. -/
theorem inOrder_of_lex {source : String} {x : Lexed} (h : lex source = .ok x) : InOrder x.tokens := by
  obtain ⟨ls, hls, rfl⟩ := Document.eq_ok_of_map h
  exact (Lexer.chain_of_lexemes hls).inOrder (Nat.le_refl 1)

theorem finish_of_lex {source : String} {x : Lexed} (h : lex source = .ok x) :
    x.finish = Position.start.after source.toList := by
  obtain ⟨ls, -, rfl⟩ := Document.eq_ok_of_map h
  rfl

/-- The tokens and the comments of a text are in its lines. -/
theorem bounds_of_lex {source : String} {x : Lexed} (h : lex source = .ok x) :
    (∀ t ∈ x.tokens, 1 ≤ t.start.line ∧ t.endLine ≤ x.finish.line) ∧
      ∀ c ∈ x.comments, 1 ≤ c.endLine ∧ c.endLine ≤ x.finish.line := by
  obtain ⟨ls, hls, rfl⟩ := Document.eq_ok_of_map h
  have hb : ∀ l ∈ ls, 1 ≤ l.start.line ∧ l.endLine ≤ _ := (Lexer.chain_of_lexemes hls).bounds
  rw [Lexer.lexemes_text hls] at hb
  refine ⟨fun t ht => ?_, fun c hc => ?_⟩
  · obtain ⟨l, hl, hlt⟩ := List.mem_filterMap.1 ht
    rw [Lexer.Lexeme.token?_start hlt, Lexer.Lexeme.token?_endLine hlt]
    exact hb l hl
  · obtain ⟨l, hl, hlc⟩ := List.mem_filterMap.1 hc
    rw [Lexer.Lexeme.comment?_endLine hlc]
    exact ⟨Nat.le_trans (hb l hl).1 l.start_le_endLine, (hb l hl).2⟩

/-! ### The layout of a text -/

/-- What stands at a place of a text. -/
inductive Mark
  | token (t : PlacedToken)
  | comment (c : Comment)

/-- A stretch of a text, from the offset `first` up to the offset `stop`, and what stands there. -/
structure Span where
  first : Nat
  stop : Nat
  mark : Mark

/-- The token of a mark. -/
def Mark.token? : Mark → Option PlacedToken
  | .token t => some t
  | .comment _ => none

/-- The comment of a mark. -/
def Mark.comment? : Mark → Option Comment
  | .token _ => none
  | .comment c => some c

/-- A mark says where its stretch of the text `s` begins, in which line its last character is, and what it reads. -/
def Mark.Fits (s : List Char) (first stop : Nat) : Mark → Prop
  | .token t =>
    t.start = .ofOffset s first ∧ t.endLine = (Position.ofOffset s (stop - 1)).line ∧
      t.token.Spelled ((s.take stop).drop first)
  | .comment c =>
    c.line = (Position.ofOffset s first).line ∧ c.endLine = (Position.ofOffset s (stop - 1)).line ∧
      c.text.toList = (s.take stop).drop first

/-- Spans that follow one another in the text `s`, each fitting its mark; outside of them there are only spaces,
tabs, carriage returns and byte order marks. -/
structure Layout (s : List Char) (spans : List Span) : Prop where
  apart : spans.Pairwise fun a b => a.stop ≤ b.first
  within : ∀ a ∈ spans, a.first < a.stop ∧ a.stop ≤ s.length
  fits : ∀ a ∈ spans, a.mark.Fits s a.first a.stop
  blank : ∀ (i : Nat) (h : i < s.length), (∀ a ∈ spans, i < a.first ∨ a.stop ≤ i) →
    s[i] ∈ [' ', '\t', '\r', '\ufeff']

namespace Lexer

/-- The mark of a lexeme. -/
def Lexeme.mark? (l : Lexeme) : Option Mark :=
  match l.item with
  | .blank => none
  | .comment => some (.comment ⟨String.ofList l.text, l.start.line, l.endLine⟩)
  | .token t => some (.token ⟨t, l.start, l.endLine⟩)

/-- The spans of lexemes, the first of which stands at the offset `n`. -/
def spans (n : Nat) : List Lexeme → List Span
  | [] => []
  | l :: ls => (l.mark?.map (⟨n, n + l.text.length, ·⟩)).toList ++ spans (n + l.text.length) ls

theorem spans_tokens (n : Nat) (ls : List Lexeme) :
    (spans n ls).filterMap (·.mark.token?) = ls.filterMap Lexeme.token? := by
  induction ls generalizing n with
  | nil => rfl
  | cons l ls ih =>
    rw [spans, List.filterMap_append, ih, List.filterMap_cons]
    cases h : l.item <;> simp [Lexeme.mark?, Lexeme.token?, Mark.token?, h]

theorem spans_comments (n : Nat) (ls : List Lexeme) :
    (spans n ls).filterMap (·.mark.comment?) = ls.filterMap Lexeme.comment? := by
  induction ls generalizing n with
  | nil => rfl
  | cons l ls ih =>
    rw [spans, List.filterMap_append, ih, List.filterMap_cons]
    cases h : l.item <;> simp [Lexeme.mark?, Lexeme.comment?, Mark.comment?, h]

theorem le_first_of_mem_spans {n : Nat} {ls : List Lexeme} {a : Span} (h : a ∈ spans n ls) : n ≤ a.first := by
  induction ls generalizing n with
  | nil => simp [spans] at h
  | cons l ls ih =>
    rcases List.mem_append.1 h with h | h
    · obtain ⟨m, -, rfl⟩ := Option.map_eq_some_iff.1 (Option.mem_toList.1 h)
      exact Nat.le_refl n
    · have := ih h
      omega

theorem spans_apart (n : Nat) (ls : List Lexeme) : (spans n ls).Pairwise fun a b => a.stop ≤ b.first := by
  induction ls generalizing n with
  | nil => exact .nil
  | cons l ls ih =>
    refine List.pairwise_append.2 ⟨?_, ih _, ?_⟩
    · cases l.mark? <;> simp
    · intro a ha b hb
      obtain ⟨m, -, rfl⟩ := Option.map_eq_some_iff.1 (Option.mem_toList.1 ha)
      exact le_first_of_mem_spans hb

/-- The mark of a lexeme fits where the text before it ends. -/
theorem Lexeme.fits {l : Lexeme} {m : Mark} {s rest : List Char} (hm : l.mark? = some m)
    (hp : l.start = Position.start.after s) (hs : l.item.Spelled l.text) (hl : l.text ≠ []) :
    m.Fits (s ++ (l.text ++ rest)) s.length (s.length + l.text.length) := by
  have hpos := List.length_pos_iff.2 hl
  have h1 : Position.ofOffset (s ++ (l.text ++ rest)) s.length = l.start := by
    rw [← Position.start_after_take, List.take_left, hp]
  have h2 : (Position.ofOffset (s ++ (l.text ++ rest)) (s.length + l.text.length - 1)).line = l.endLine := by
    have ht : (s ++ (l.text ++ rest)).take (s.length + l.text.length - 1) = s ++ l.text.dropLast := by
      rw [Nat.add_sub_assoc hpos, List.take_length_add_append, List.take_append_of_le_length (by omega),
        ← List.dropLast_eq_take]
    rw [← Position.start_after_take, ht, Position.after_append, ← hp]
    rfl
  have h3 : ((s ++ (l.text ++ rest)).take (s.length + l.text.length)).drop s.length = l.text := by
    rw [List.take_length_add_append, List.take_left, List.drop_left]
  cases hi : l.item with
  | blank => simp [mark?, hi] at hm
  | comment =>
    obtain rfl : Mark.comment _ = m := by simpa [mark?, hi] using hm
    exact ⟨by rw [h1], h2.symm, by rw [h3, String.toList_ofList]⟩
  | token t =>
    obtain rfl : Mark.token _ = m := by simpa [mark?, hi] using hm
    rw [hi] at hs
    exact ⟨h1.symm, h2.symm, h3.symm ▸ hs⟩

theorem Chain.spans_fit {s : List Char} {ls : List Lexeme} (h : Chain (Position.start.after s) ls) :
    ∀ a ∈ spans s.length ls, a.first < a.stop ∧ a.stop ≤ (s ++ ls.flatMap Lexeme.text).length ∧
      a.mark.Fits (s ++ ls.flatMap Lexeme.text) a.first a.stop := by
  induction ls generalizing s with
  | nil => simp [spans]
  | cons l ls ih =>
    obtain ⟨hp, hl, hs, h⟩ := h
    intro a ha
    rw [List.flatMap_cons]
    rcases List.mem_append.1 ha with ha | ha
    · obtain ⟨m, hm, rfl⟩ := Option.map_eq_some_iff.1 (Option.mem_toList.1 ha)
      have hpos := List.length_pos_iff.2 hl
      refine ⟨?_, ?_, Lexeme.fits hm hp hs hl⟩
      · simp only
        omega
      · simp only [List.length_append]
        omega
    · have := ih (s := s ++ l.text) (by rwa [Position.after_append]) a (by rwa [List.length_append])
      rwa [List.append_assoc] at this

theorem Chain.spans_blank {s : List Char} {ls : List Lexeme} (h : Chain (Position.start.after s) ls) {i : Nat}
    {c : Char} (hi : s.length ≤ i) (hc : (s ++ ls.flatMap Lexeme.text)[i]? = some c)
    (ho : ∀ a ∈ spans s.length ls, i < a.first ∨ a.stop ≤ i) : isBlankChar c = true := by
  induction ls generalizing s with
  | nil =>
    have := (List.getElem?_eq_some_iff.1 hc).1
    simp at this
    omega
  | cons l ls ih =>
    obtain ⟨-, -, hs, h⟩ := h
    rw [List.flatMap_cons] at hc
    by_cases hin : i < s.length + l.text.length
    · -- a character of the first lexeme, which therefore has no mark
      have hb : l.item = .blank := by
        by_contra hb
        have hm : ∃ m, l.mark? = some m := by
          cases hi : l.item <;> simp_all [Lexeme.mark?]
        obtain ⟨m, hm⟩ := hm
        have := ho ⟨s.length, s.length + l.text.length, m⟩ (by simp [spans, hm])
        simp only at this
        omega
      rw [hb] at hs
      rw [List.getElem?_append_right hi, List.getElem?_append_left (by omega)] at hc
      exact hs c (List.mem_of_getElem? hc)
    · refine ih (s := s ++ l.text) (by rwa [Position.after_append]) ?_ (by rwa [List.append_assoc]) ?_
      · rw [List.length_append]
        omega
      · intro a ha
        exact ho a (List.mem_append_right _ (by rwa [List.length_append] at ha))

end Lexer

theorem isBlankChar_iff {c : Char} : Lexer.isBlankChar c = true ↔ c ∈ [' ', '\t', '\r', '\ufeff'] := by
  simp [Lexer.isBlankChar, or_assoc]

/-- Every text that has tokens is laid out in spans, one for each token and each comment, in order; the text ends at
the position that is reported as its end. -/
theorem layout_of_lex {source : String} {x : Lexed} (h : lex source = .ok x) :
    ∃ spans : List Span, Layout source.toList spans ∧ spans.filterMap (·.mark.token?) = x.tokens ∧
      spans.filterMap (·.mark.comment?) = x.comments ∧
      x.finish = .ofOffset source.toList source.toList.length := by
  obtain ⟨ls, hls, rfl⟩ := Document.eq_ok_of_map h
  have hc : Lexer.Chain (Position.start.after []) ls := Lexer.chain_of_lexemes hls
  have ht : [] ++ ls.flatMap Lexer.Lexeme.text = source.toList := Lexer.lexemes_text hls
  have hf := hc.spans_fit
  rw [ht] at hf
  refine ⟨Lexer.spans 0 ls, ⟨Lexer.spans_apart 0 ls, fun a ha => ⟨(hf a ha).1, (hf a ha).2.1⟩,
    fun a ha => (hf a ha).2.2, fun i hi ho => ?_⟩, Lexer.spans_tokens 0 ls, Lexer.spans_comments 0 ls, ?_⟩
  · have hi' : ([] ++ ls.flatMap Lexer.Lexeme.text)[i]? = some source.toList[i] := by
      rw [ht, List.getElem?_eq_getElem hi]
    exact isBlankChar_iff.1 (hc.spans_blank (Nat.zero_le i) hi' ho)
  · rw [← Position.start_after_take, List.take_length]

/-- A text with a byte order mark, a template and a comment over two lines, and a heredoc. -/
theorem layout_of_lex_multiline :
    ∃ x : Lexed, lex "\ufeffa = \"$\x7b\n\x7d\" /* x\n*/ -1.5e3\r\nb = <<-E\n  q\nE\n" = .ok x ∧
      x.tokens.length = 10 ∧ x.comments = [⟨"/* x\n*/", 2, 3⟩] ∧
      ∃ spans : List Span,
        Layout "\ufeffa = \"$\x7b\n\x7d\" /* x\n*/ -1.5e3\r\nb = <<-E\n  q\nE\n".toList spans ∧
        spans.filterMap (·.mark.token?) = x.tokens ∧ spans.filterMap (·.mark.comment?) = x.comments := by
  have h : lex "\ufeffa = \"$\x7b\n\x7d\" /* x\n*/ -1.5e3\r\nb = <<-E\n  q\nE\n" =
      .ok ⟨[⟨.identifier "a", ⟨1, 2⟩, 1⟩, ⟨.equals, ⟨1, 4⟩, 1⟩, ⟨.string "$\x7b\n\x7d" true, ⟨1, 6⟩, 2⟩,
        ⟨.operator "-", ⟨3, 4⟩, 3⟩, ⟨.number "1.5e3", ⟨3, 5⟩, 3⟩, ⟨.newline, ⟨3, 11⟩, 3⟩,
        ⟨.identifier "b", ⟨4, 1⟩, 4⟩, ⟨.equals, ⟨4, 3⟩, 4⟩, ⟨.heredoc "q\n" false, ⟨4, 5⟩, 6⟩,
        ⟨.newline, ⟨6, 2⟩, 6⟩], [⟨"/* x\n*/", 2, 3⟩], ⟨7, 1⟩⟩ := by
    decide +kernel
  obtain ⟨spans, hs, ht, hc, -⟩ := layout_of_lex h
  exact ⟨_, h, rfl, rfl, spans, hs, ht, hc⟩

end InfraAudit.Hcl
