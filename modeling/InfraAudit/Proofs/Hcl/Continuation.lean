import InfraAudit.Proofs.Hcl.Delimited

/-!
# InfraAudit.Proofs.Hcl.Continuation — lexemes before another text

A lexeme looks at the characters behind it to find its end.  Where it stands, and what comes after the next blank or
newline, does not matter to it.

* `Halts`: texts that start, if at all, with a space, a newline or a carriage return.
* `numberTail_before`, `punctuation?_before`: what ends by what follows is read the same before any text that halts.
* `lexeme_before`: a lexeme at another place, before another text.
* `read_before`: the first lexemes of a text before another rest.
-/

namespace InfraAudit.Hcl

open InfraAudit.Text

/-- Characters that no word goes over. -/
def halting : List Char := [' ', '\n', '\r']

/-- The text is at its end or goes on with a character that no word goes over. -/
def Halts (s : List Char) : Prop :=
  ∀ c ∈ s.head?, c ∈ halting

/-- The cut of a text that goes on with `t`. -/
def Cut.before (k : Cut) (t : List Char) : Cut := ⟨k.taken, k.rest ++ t⟩

section Ends

variable {s t : List Char} {f : Char → Bool}

theorem LineEnd.halts (h : LineEnd s) : Halts s :=
  fun c hc => h c hc ▸ by decide

theorem halts_nil : Halts [] := by
  rintro c ⟨⟩

theorem halts_space : Halts (' ' :: s) := by
  rintro c ⟨⟩
  decide

theorem Halts.not_mem (h : Halts t) (hf : halting.any f = false) : ∀ c ∈ t.head?, f c = false :=
  fun c hc => by simpa using List.any_eq_false.1 hf c (h c hc)

theorem Halts.ne {c : Char} {r : List Char} (h : Halts (c :: r)) {d : Char} (hd : d ∉ halting) : c ≠ d := by
  rintro rfl
  exact hd (h c rfl)

/-- Which character comes first, where the text does not halt. -/
theorem head?_beq {t' : List Char} (ht : Halts t) (ht' : Halts t') {d : Char} (hd : d ∉ halting) (w : List Char) :
    ((w ++ t').head? == some d) = ((w ++ t).head? == some d) := by
  have key {t : List Char} (ht : Halts t) : (t.head? == some d) = false := by
    cases t with
    | nil => rfl
    | cons c t => simpa using ht.ne hd
  cases w with
  | nil => rw [List.nil_append, List.nil_append, key ht, key ht']
  | cons c w => rfl

/-- A class without the characters that halt is left where the text halts. -/
theorem span_before (ht : Halts t) (hf : halting.any f = false) (s : List Char) :
    Cut.span f (s ++ t) = (Cut.span f s).before t := by
  induction s with
  | nil => exact Lexer.span_append (s := []) (by simp) (ht.not_mem hf)
  | cons c s ih =>
    rw [Cut.span, Cut.span, Cut.before, Cut.mk.injEq] at ih
    by_cases hc : f c = true
    · simp [Cut.span, Cut.before, hc, ih.1, ih.2]
    · simp [Cut.span, Cut.before, hc]

end Ends

namespace Lexer

/-! ### Numbers, identifiers and punctuation -/

section Words

variable {t : List Char}

theorem fraction_before (ht : Halts t) (s : List Char) : fraction (s ++ t) = (fraction s).before t := by
  match s with
  | [] =>
    cases t with
    | nil => rfl
    | cons c t =>
      have hc : c ≠ '.' := ht.ne (by decide)
      simp [fraction, Cut.none, Cut.before, hc]
  | [c] =>
    by_cases hc : c = '.'
    · subst hc
      cases t with
      | nil => rfl
      | cons d t =>
        have hd : isDigit d = false := ht.not_mem (by decide) d rfl
        simp [fraction, Cut.none, Cut.before, hd]
    · simp [fraction, Cut.none, Cut.before, hc]
  | c :: d :: r =>
    by_cases hc : c = '.'
    · subst hc
      by_cases hd : isDigit d = true
      · have hs := span_before ht (f := isDigit) (by decide) (d :: r)
        rw [List.cons_append] at hs
        simp [fraction, hd, hs, Cut.before, Cut.onto]
      · simp [fraction, hd, Cut.none, Cut.before]
    · simp [fraction, Cut.none, Cut.before, hc]

/-- A sign, if there is one, and digits. -/
def signed : List Char → Cut
  | '+' :: r => (Cut.span isDigit r).onto ['+']
  | '-' :: r => (Cut.span isDigit r).onto ['-']
  | s => Cut.span isDigit s

theorem signed_other {c : Char} {r : List Char} (hp : c ≠ '+') (hm : c ≠ '-') :
    signed (c :: r) = Cut.span isDigit (c :: r) := by
  unfold signed
  split <;> simp_all

theorem signed_before (ht : Halts t) (s : List Char) : signed (s ++ t) = (signed s).before t := by
  have hdigits := span_before ht (f := isDigit) (by decide)
  cases s with
  | nil =>
    cases t with
    | nil => rfl
    | cons c t =>
      rw [List.nil_append, signed_other (ht.ne (by decide)) (ht.ne (by decide))]
      exact hdigits []
  | cons c r =>
    by_cases hp : c = '+'
    · subst hp
      simp [signed, hdigits, Cut.onto, Cut.before]
    by_cases hm : c = '-'
    · subst hm
      simp [signed, hdigits, Cut.onto, Cut.before]
    · rw [List.cons_append, signed_other hp hm, signed_other hp hm]
      exact hdigits (c :: r)

theorem signedDigits?_before (ht : Halts t) (s : List Char) :
    signedDigits? (s ++ t) = (signedDigits? s).map (·.before t) := by
  have hsigned (s : List Char) :
      signedDigits? s = if (signed s).taken.any isDigit then some (signed s) else none := by
    unfold signedDigits? signed
    split <;> simp
  have htaken : ((signed s).before t).taken = (signed s).taken := rfl
  rw [hsigned, hsigned, signed_before ht, htaken]
  split <;> rfl

theorem exponent_before (ht : Halts t) (s : List Char) : exponent (s ++ t) = (exponent s).before t := by
  cases s with
  | nil =>
    cases t with
    | nil => rfl
    | cons c t =>
      have he : c ≠ 'e' := ht.ne (by decide)
      have hE : c ≠ 'E' := ht.ne (by decide)
      simp [exponent, he, hE, Cut.none, Cut.before]
  | cons c r =>
    rw [List.cons_append]
    simp only [exponent, signedDigits?_before ht]
    split
    · cases signedDigits? r with
      | none => rfl
      | some k => rfl
    · rfl

theorem numberTail_before (ht : Halts t) (s : List Char) : numberTail (s ++ t) = (numberTail s).before t := by
  have hw : Cut.span isDigit (s ++ t) = (Cut.span isDigit s).before t := span_before ht (by decide) s
  simp only [numberTail, hw, Cut.before, fraction_before ht, exponent_before ht]

theorem identifierTail_before (ht : Halts t) (s : List Char) :
    identifierTail (s ++ t) = (identifierTail s).before t :=
  span_before ht (by decide) s

theorem pair?_halts {d : Char} (ht : Halts (d :: t)) (c : Char) : pair? c d = none := by
  have h1 : d ≠ '=' := ht.ne (by decide)
  have h2 : d ≠ '&' := ht.ne (by decide)
  have h3 : d ≠ '|' := ht.ne (by decide)
  have h4 : d ≠ '>' := ht.ne (by decide)
  unfold pair?
  split <;> simp_all

/-- Where no dots follow one another, punctuation is what its first two characters say. -/
theorem punctuation?_cons {c d : Char} {w : List Char} (h : ¬(c = '.' ∧ d = '.' ∧ w.head? = some '.')) :
    punctuation? c (d :: w) = match pair? c d with
      | some tok => some (tok, ⟨[c, d], w⟩)
      | none => (single? c).map fun tok => (tok, ⟨[c], d :: w⟩) := by
  unfold punctuation?
  split
  · next hdots =>
    cases hdots
    exact absurd ⟨rfl, rfl, rfl⟩ h
  · next hcons => cases hcons; rfl
  · next hnil => cases hnil

theorem punctuation?_before (ht : Halts t) (c : Char) (r : List Char) :
    punctuation? c (r ++ t) = (punctuation? c r).map fun (tok, k) => (tok, k.before t) := by
  have hdot : t.head? ≠ some '.' := by
    cases t with
    | nil => simp
    | cons d t => exact fun he => ht.ne (d := '.') (by decide) (Option.some.inj he)
  match r with
  | [] =>
    cases t with
    | nil => simp [punctuation?, Cut.before, Function.comp_def]
    | cons d t =>
      have hd : d ≠ '.' := ht.ne (by decide)
      simp [punctuation?, hd, pair?_halts ht, Cut.before, Function.comp_def]
  | [d] =>
    rw [List.singleton_append, punctuation?_cons fun h => hdot h.2.2, punctuation?_cons (by simp)]
    cases hp : pair? c d <;> simp [Cut.before, Function.comp_def]
  | d :: e :: r =>
    by_cases hc : c = '.' ∧ d = '.' ∧ e = '.'
    · obtain ⟨rfl, rfl, rfl⟩ := hc
      rfl
    · rw [List.cons_append, List.cons_append, punctuation?_cons (by simpa using hc),
        punctuation?_cons (by simpa using hc)]
      cases hp : pair? c d <;> simp [Cut.before, Function.comp_def]

end Words

/-! ### Lexemes -/

/-- Whether a lexeme of the given text reaches to the end of its line: line comments and heredocs do. -/
def Item.FillsLine : Item → List Char → Prop
  | .blank, _ => False
  | .comment, s => ¬ ['/', '*'] <+: s
  | .token t, _ => t.isHeredoc = true

section Lexemes

variable {p : Position} {c : Char} {v u t t' : List Char}

/-- What goes on up to a character where texts halt goes on so far before any of them. -/
theorem tail_before {f : List Char → Cut} (hf : ∀ {t}, Halts t → ∀ s, f (s ++ t) = (f s).before t)
    (h1 : (f (v ++ (u ++ t))).taken = v) (h2 : (f (v ++ (u ++ t))).rest = u ++ t) (ht : Halts t) (ht' : Halts t') :
    f (v ++ (u ++ t')) = ⟨v, u ++ t'⟩ := by
  rw [← List.append_assoc, hf ht] at h1 h2
  rw [← List.append_assoc, hf ht', Cut.before, show (f (v ++ u)).taken = v from h1, List.append_cancel_right h2]

theorem symbol_before {tok : Token} (h : symbol p c (v ++ (u ++ t)) = .ok (tok, ⟨c :: v, u ++ t⟩)) (ht : Halts t)
    (ht' : Halts t') (q : Position) : symbol q c (v ++ (u ++ t')) = .ok (tok, ⟨c :: v, u ++ t'⟩) := by
  unfold symbol at h
  rw [← List.append_assoc, punctuation?_before ht] at h
  cases hp : punctuation? c (v ++ u) with
  | none =>
    rw [hp] at h
    cases h
  | some x =>
    obtain ⟨tok', k⟩ := x
    rw [hp] at h
    simp only [Option.map_some, Except.ok.injEq, Prod.mk.injEq, Cut.before, Cut.mk.injEq] at h
    obtain ⟨rfl, h1, h2⟩ := h
    unfold symbol
    rw [← List.append_assoc, punctuation?_before ht', hp]
    simp [Cut.before, h1, List.append_cancel_right h2]

theorem token_before {tok : Token} (h : token p c (v ++ (u ++ t)) = .ok (tok, ⟨c :: v, u ++ t⟩)) (ht : Halts t)
    (ht' : Halts t') (hl : u = [] → tok.isHeredoc = true → LineEnd t') (q : Position) :
    token q c (v ++ (u ++ t')) = .ok (tok, ⟨c :: v, u ++ t'⟩) := by
  have hhead := head?_beq ht ht' (d := '<') (by decide) (v ++ u)
  rw [List.append_assoc, List.append_assoc] at hhead
  unfold token at h ⊢
  rw [hhead]
  by_cases hn : (c == '\n') = true
  · rw [if_pos hn] at h ⊢
    obtain rfl : [] = v := by
      simp only [Except.ok.injEq, Prod.mk.injEq, Cut.mk.injEq, List.cons.injEq] at h
      exact h.2.1.2
    cases h
    rfl
  rw [if_neg hn] at h ⊢
  by_cases hq : (c == '"') = true
  · rw [if_pos hq] at h ⊢
    obtain ⟨⟨x, k⟩, hx, he⟩ := Document.eq_ok_of_map h
    simp only [Prod.mk.injEq, Cut.onto, Cut.mk.injEq, List.singleton_append, List.cons.injEq] at he
    obtain ⟨rfl, ⟨rfl, rfl⟩, hr⟩ := he
    have hb := Quotation.literal_before hx q (q.next '"') (u ++ t')
    rw [quotation, hb]
    rfl
  rw [if_neg hq] at h ⊢
  by_cases hh : (c == '<' && (v ++ (u ++ t)).head? == some '<') = true
  · rw [if_pos hh] at h ⊢
    obtain ⟨hrest, htok, w, hw, hb⟩ := heredoc_before h
    obtain rfl : v = '<' :: w := (List.cons.inj hw).2
    exact hb q (u ++ t') (hrest.of_append fun hu => hl hu htok)
  rw [if_neg hh] at h ⊢
  by_cases hd : isDigit c = true
  · rw [if_pos hd] at h ⊢
    simp only [Except.ok.injEq, Prod.mk.injEq, Cut.onto, Cut.mk.injEq, List.singleton_append, List.cons.injEq,
      true_and] at h
    obtain ⟨rfl, h1, h2⟩ := h
    have hb : numberTail (v ++ (u ++ t')) = ⟨v, u ++ t'⟩ := tail_before numberTail_before h1 h2 ht ht'
    simp only [hb, h1]
    rfl
  rw [if_neg hd] at h ⊢
  by_cases hi : isIdentStart c = true
  · rw [if_pos hi] at h ⊢
    simp only [Except.ok.injEq, Prod.mk.injEq, Cut.onto, Cut.mk.injEq, List.singleton_append, List.cons.injEq,
      true_and] at h
    obtain ⟨rfl, h1, h2⟩ := h
    have hb : identifierTail (v ++ (u ++ t')) = ⟨v, u ++ t'⟩ := tail_before identifierTail_before h1 h2 ht ht'
    simp only [hb, h1]
    rfl
  rw [if_neg hi] at h ⊢
  exact symbol_before h ht ht' q

/-- A lexeme other than blanks is read the same wherever it stands, and before any text that halts; one that fills
its line needs the end of a line behind it. -/
theorem lexeme_before {item : Item} (h : lexeme p c (v ++ (u ++ t)) = .ok (item, ⟨c :: v, u ++ t⟩))
    (hb : item ≠ .blank) (ht : Halts t) (ht' : Halts t') (hl : u = [] → item.FillsLine (c :: v) → LineEnd t')
    (q : Position) : lexeme q c (v ++ (u ++ t')) = .ok (item, ⟨c :: v, u ++ t'⟩) := by
  have hhead {d : Char} (hd : d ∉ halting) :
      ((v ++ (u ++ t')).head? == some d) = ((v ++ (u ++ t)).head? == some d) := by
    have := head?_beq ht ht' hd (v ++ u)
    rwa [List.append_assoc, List.append_assoc] at this
  have hslash := hhead (d := '/') (by decide)
  have hstar := hhead (d := '*') (by decide)
  unfold lexeme at h ⊢
  rw [hslash, hstar]
  by_cases hc : isBlankChar c = true
  · rw [if_pos hc] at h
    simp only [Except.ok.injEq, Prod.mk.injEq] at h
    exact absurd h.1.symm hb
  rw [if_neg hc] at h ⊢
  by_cases hline : (c == '#' || (c == '/' && (v ++ (u ++ t)).head? == some '/')) = true
  · rw [if_pos hline] at h ⊢
    simp only [Except.ok.injEq, Prod.mk.injEq, Cut.onto, Cut.mk.injEq, List.singleton_append, List.cons.injEq,
      true_and] at h
    obtain ⟨rfl, h1, h2⟩ := h
    have hv : ∀ d ∈ v, (d != '\n') = true := by
      intro d hd
      rw [← h1] at hd
      exact List.mem_takeWhile_imp (p := (· != '\n')) hd
    have hrest : LineEnd (u ++ t) := by
      rw [← h2]
      exact lineEnd_dropWhile _
    -- a comment that starts with two slashes has the second one in its text
    have hfill : Item.FillsLine .comment (c :: v) := by
      rintro ⟨w, hw⟩
      simp only [List.cons_append, List.nil_append, List.cons.injEq] at hw
      obtain ⟨rfl, rfl⟩ := hw
      simp at hline
    have hrest' : LineEnd (u ++ t') := hrest.of_append fun hu => hl hu hfill
    have hspan : lineComment (v ++ (u ++ t')) = ⟨v, u ++ t'⟩ :=
      span_append hv fun d hd => by simp [hrest' d hd]
    rw [hspan]
    rfl
  rw [if_neg hline] at h ⊢
  by_cases hblock : (c == '/' && (v ++ (u ++ t)).head? == some '*') = true
  · rw [if_pos hblock] at h ⊢
    split at h
    · cases h
    · next k hk =>
      simp only [Except.ok.injEq, Prod.mk.injEq, Cut.onto, Cut.mk.injEq, List.cons_append, List.nil_append,
        List.cons.injEq] at h
      obtain ⟨rfl, ⟨rfl, rfl⟩, -⟩ := h
      have hn := blockComment?_before hk (u ++ t')
      simp only [List.cons_append, List.drop_one, List.tail_cons, hn]
      rfl
  rw [if_neg hblock] at h ⊢
  obtain ⟨⟨tok, k⟩, hk, he⟩ := Document.eq_ok_of_map h
  cases he
  rw [token_before hk ht ht' hl q]
  rfl

theorem lexeme_cut {r : List Char} {x : Item × Cut} (h : lexeme p c r = .ok x) :
    ∃ v, x.2 = ⟨c :: v, x.2.rest⟩ ∧ r = v ++ x.2.rest := by
  obtain ⟨item, k⟩ := x
  have hk : k.taken ++ k.rest = c :: r := (lexeme_of h).1
  obtain ⟨d, v, hv⟩ := List.exists_cons_of_ne_nil (lexeme_of h).2
  simp only at hv
  rw [hv, List.cons_append, List.cons.injEq] at hk
  obtain ⟨rfl, rfl⟩ := hk
  exact ⟨v, by rw [← hv], rfl⟩

/-- Where a lexeme stands does not matter to it. -/
theorem lexeme_anywhere {r : List Char} {x : Item × Cut} (h : lexeme p c r = .ok x) (q : Position) :
    lexeme q c r = .ok x := by
  by_cases hc : isBlankChar c = true
  · rw [lexeme_blank p hc] at h
    rw [lexeme_blank q hc, h]
  obtain ⟨v, hx, hr⟩ := lexeme_cut h
  obtain ⟨item, k⟩ := x
  simp only at hx hr
  have hb : item ≠ .blank := by
    rintro rfl
    have hs : ∀ d ∈ k.taken, isBlankChar d = true := lexeme_spelled h
    rw [hx] at hs
    exact hc (hs c List.mem_cons_self)
  have hn (u : List Char) (h : lexeme p c (v ++ u) = .ok (item, ⟨c :: v, u⟩)) :
      lexeme q c (v ++ u) = .ok (item, ⟨c :: v, u⟩) := by
    rw [← List.append_nil u] at h ⊢
    exact lexeme_before h hb halts_nil halts_nil (fun _ _ => by rintro d ⟨⟩) q
  rw [hx, hr] at h ⊢
  exact hn _ h

end Lexemes

/-! ### Texts -/

section Texts

variable {p : Position} {s t t' : List Char} {l : Lexeme} {ls ls' : List Lexeme}

theorem lexemes_cons_inv (h : lexemes p s = .ok (l :: ls)) :
    ∃ c v rest, l.text = c :: v ∧ s = c :: (v ++ rest) ∧ l.start = p ∧
      lexeme p c (v ++ rest) = .ok (l.item, ⟨c :: v, rest⟩) ∧ lexemes (p.after l.text) rest = .ok ls := by
  cases s with
  | nil =>
    rw [lexemes] at h
    cases h
  | cons c r =>
    rw [lexemes] at h
    split at h
    · cases h
    · next item k hk =>
      obtain ⟨more, hm, he⟩ := Document.eq_ok_of_map h
      cases he
      obtain ⟨v, hx, hr⟩ := lexeme_cut hk
      simp only at hx hr
      refine ⟨c, v, k.rest, congrArg Cut.taken hx, by rw [← hr], rfl, ?_, hm⟩
      rw [← hr, ← hx]
      exact hk

/-- Blanks in front of a text. -/
theorem read_blanks (hs : ∀ c ∈ s, isBlankChar c = true) : read p (s ++ t) = read (p.after s) t := by
  induction s generalizing p with
  | nil => rfl
  | cons c s ih =>
    obtain ⟨hc, hs⟩ := List.forall_mem_cons.1 hs
    have hread : Reads [c] [] (s ++ t) := reads_blank hc
    obtain ⟨us, hus, hr⟩ := hread p
    obtain rfl := List.map_eq_nil_iff.1 hus
    rw [List.singleton_append] at hr
    rw [List.cons_append, hr, Position.after_cons, Position.after_nil, Position.after_cons, ih hs]
    cases read ((p.next c).after s) t <;> rfl

/-- A newline in front of a text. -/
theorem read_newline (p : Position) (s : List Char) :
    read p ('\n' :: s) = (read (p.next '\n') s).map fun (ts, cs) => (⟨.newline, p, p.line⟩ :: ts, cs) := by
  have h : lexeme p '\n' s = .ok (.token .newline, ⟨['\n'], s⟩) := by
    simp [lexeme, token, isBlankChar, Except.map]
  rw [read_cons h]
  rfl

/-- The first lexemes of a text give the same tokens and comments before any other rest that halts; if the last of
them fills its line, before the end of a line. -/
theorem read_before (h : lexemes p (s ++ t) = .ok (ls ++ ls')) (hs : ls.flatMap Lexeme.text = s) (ht : Halts t)
    (ht' : Halts t') (hl : ∀ l ∈ ls.getLast?, l.item.FillsLine l.text → LineEnd t') :
    read p (s ++ t') = (read (p.after s) t').map fun (ts, cs) =>
      (ls.filterMap Lexeme.token? ++ ts, ls.filterMap Lexeme.comment? ++ cs) := by
  induction ls generalizing p s with
  | nil =>
    subst hs
    cases hr : read p t' <;> simp [Except.map, hr]
  | cons l ls ih =>
    obtain ⟨c, v, rest, htext, hcut, rfl, hlex, hmore⟩ := lexemes_cons_inv h
    obtain ⟨u, rfl⟩ : ∃ u, s = l.text ++ u := ⟨_, by rw [← hs, List.flatMap_cons]⟩
    have hu : ls.flatMap Lexeme.text = u := by
      rw [List.flatMap_cons] at hs
      exact List.append_cancel_left hs
    obtain rfl : rest = u ++ t := by
      rw [htext, List.append_assoc, List.cons_append, List.cons.injEq] at hcut
      exact (List.append_cancel_left hcut.2).symm
    have hlast : ∀ l' ∈ ls.getLast?, l'.item.FillsLine l'.text → LineEnd t' := by
      intro l' hl'
      refine hl l' ?_
      rw [Option.mem_def, List.getLast?_cons, Option.mem_def.1 hl']
      rfl
    have hn := ih hmore hu hlast
    by_cases hb : l.item = .blank
    · have hblank : ∀ d ∈ l.text, isBlankChar d = true := by
        have := lexeme_spelled hlex
        rwa [hb, ← htext] at this
      have htok : l.token? = none := by simp [Lexeme.token?, hb]
      have hcom : l.comment? = none := by simp [Lexeme.comment?, hb]
      rw [List.append_assoc, read_blanks hblank, hn, Position.after_append, List.filterMap_cons, htok,
        List.filterMap_cons, hcom]
    · -- no lexemes follow only if no text does
      have hfill : u = [] → l.item.FillsLine (c :: v) → LineEnd t' := by
        rintro rfl hf
        obtain rfl : ls = [] := by
          cases ls with
          | nil => rfl
          | cons l' ls =>
            obtain ⟨c', v', -, ht', -⟩ := lexemes_cons_inv hmore
            rw [List.flatMap_cons, ht'] at hu
            cases hu
        exact hl l rfl (htext ▸ hf)
      have hlex' := lexeme_before hlex hb ht ht' hfill l.start
      rw [htext, List.append_assoc, List.cons_append, read_cons hlex', ← htext, hn, Position.after_append]
      cases read ((l.start.after l.text).after u) t' with
      | error e => rfl
      | ok x =>
        cases htok : l.token? <;> cases hcom : l.comment? <;> simp [Except.map, htok, hcom]

end Texts

end Lexer

end InfraAudit.Hcl
