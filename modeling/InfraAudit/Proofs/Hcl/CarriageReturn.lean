import InfraAudit.Proofs.Hcl.Continuation

/-!
# InfraAudit.Proofs.Hcl.CarriageReturn — carriage returns before newlines

* `Returned`: the second text is the first one with carriage returns put before newlines.
* `literal_returned`: a string literal ends at the same quote; only the text of template sequences has the returns.
* `heredoc_returned`: a heredoc has the same text.
* `blockComment?_returned`: a block comment ends at the same delimiter.
-/

namespace InfraAudit.Hcl

open InfraAudit.Text

/-! ### Texts with carriage returns -/

/-- The second text is the first one with carriage returns put before newlines, and perhaps one at its end, where a
newline may be cut off.  The first text has none, and no backslash before a newline. -/
inductive Returned : List Char → List Char → Prop
  | nil : Returned [] []
  | last : Returned [] ['\r']
  | cons {c : Char} {s s' : List Char} (hr : c ≠ '\r') (hb : c = '\\' → s.head? ≠ some '\n') (h : Returned s s') :
      Returned (c :: s) (c :: s')
  | newline {s s' : List Char} (h : Returned s s') : Returned ('\n' :: s) ('\r' :: '\n' :: s')

/-- The text with a carriage return before every newline. -/
def crlf (s : List Char) : List Char :=
  s.flatMap fun c => if c = '\n' then ['\r', '\n'] else [c]

section Texts

variable {s s' a b : List Char} {c d : Char} {f : Char → Bool}

theorem returned_crlf (hr : '\r' ∉ s) (hb : ¬ ['\\', '\n'] <:+: s) : Returned s (crlf s) := by
  induction s with
  | nil => exact .nil
  | cons c s ih =>
    obtain ⟨hc, hs⟩ := not_or.1 (List.mem_cons.not.1 hr)
    have h : Returned s (crlf s) := ih hs fun hi => hb (hi.trans (List.suffix_cons c s).isInfix)
    by_cases hn : c = '\n'
    · subst hn
      exact .newline h
    · have hcons : crlf (c :: s) = c :: crlf s := by simp [crlf, hn]
      rw [hcons]
      refine .cons (Ne.symm hc) (fun hc' hh => hb ?_) h
      obtain ⟨t, rfl⟩ := List.head?_eq_some_iff.1 hh
      exact ⟨[], t, by rw [hc']; rfl⟩

theorem Returned.count (h : Returned s s') : s'.count '\n' = s.count '\n' := by
  induction h with
  | nil => rfl
  | last => rfl
  | cons _ _ _ ih => rw [List.count_cons, List.count_cons, ih]
  | newline _ ih =>
    rw [List.count_cons_of_ne (by decide), List.count_cons, List.count_cons, ih]

/-- What starts with a character of its own line goes on with returns as before. -/
theorem Returned.cons_inv (h : Returned (c :: s) s') (hc : c ≠ '\n') : ∃ t', s' = c :: t' ∧ Returned s t' := by
  cases h with
  | cons _ _ h => exact ⟨_, rfl, h⟩
  | newline => exact absurd rfl hc

theorem Returned.head?_eq_iff (h : Returned s s') (hd : d ∉ halting) : s'.head? = some d ↔ s.head? = some d := by
  have hr : '\r' ≠ d := fun he => hd (he ▸ by decide)
  have hn : '\n' ≠ d := fun he => hd (he ▸ by decide)
  cases h with
  | nil => rfl
  | last => simpa using hr
  | cons => rfl
  | newline => simp [hr, hn]

theorem Returned.head?_beq (h : Returned s s') (hd : d ∉ halting) : (s'.head? == some d) = (s.head? == some d) :=
  Bool.eq_iff_iff.2 (by simpa using h.head?_eq_iff hd)

theorem Returned.append_inv (h : Returned (a ++ b) s') (ha : '\n' ∉ a) : ∃ b', s' = a ++ b' ∧ Returned b b' := by
  induction a generalizing s' with
  | nil => exact ⟨s', rfl, h⟩
  | cons c a ih =>
    obtain ⟨hc, ha⟩ := not_or.1 (List.mem_cons.not.1 ha)
    rw [List.cons_append] at h
    obtain ⟨t', rfl, ht⟩ := h.cons_inv (Ne.symm hc)
    obtain ⟨b', rfl, hb⟩ := ih ht ha
    exact ⟨b', rfl, hb⟩

/-- Where both texts go on alike behind a cut, as many lines stand before it. -/
theorem Returned.count_taken {k k' : Cut} (h : Returned s s') (hk : Cut.Of s k) (hk' : Cut.Of s' k')
    (hr : Returned k.rest k'.rest) : k'.taken.count '\n' = k.taken.count '\n' := by
  have hcount : (k'.taken ++ k'.rest).count '\n' = (k.taken ++ k.rest).count '\n' := by
    rw [show k'.taken ++ k'.rest = s' from hk', show k.taken ++ k.rest = s from hk, h.count]
  rw [List.count_append, List.count_append, hr.count] at hcount
  exact Nat.add_right_cancel hcount

theorem Returned.append_cancel {b' : List Char} (h : Returned (a ++ b) (a ++ b')) (ha : '\n' ∉ a) : Returned b b' := by
  obtain ⟨c', hc, hb⟩ := h.append_inv ha
  obtain rfl := List.append_cancel_left hc
  exact hb

/-- A class without line ends takes the same of both texts. -/
theorem Returned.span (h : Returned s s') (hn : f '\n' = false) (hr : f '\r' = false) :
    (Cut.span f s').taken = (Cut.span f s).taken ∧ Returned (Cut.span f s).rest (Cut.span f s').rest := by
  induction h with
  | nil => exact ⟨rfl, .nil⟩
  | last => simpa [Cut.span, hr] using Returned.last
  | @cons c s s' hcr hb h ih =>
    by_cases hc : f c = true
    · have hcut (t : List Char) : Cut.span f (c :: t) = (Cut.span f t).onto [c] := by simp [Cut.span, hc, Cut.onto]
      rw [hcut, hcut]
      exact ⟨congrArg (c :: ·) ih.1, ih.2⟩
    · have hcut (t : List Char) : Cut.span f (c :: t) = .none (c :: t) := by simp [Cut.span, hc, Cut.none]
      rw [hcut, hcut]
      exact ⟨rfl, .cons hcr hb h⟩
  | @newline s s' h ih =>
    have hcut {c : Char} (hc : f c = false) (t : List Char) : Cut.span f (c :: t) = .none (c :: t) := by
      simp [Cut.span, hc, Cut.none]
    rw [hcut hn, hcut hr]
    exact ⟨rfl, .newline h⟩

/-- The first lines of both texts, and what is behind them. -/
theorem Returned.line (h : Returned s s') :
    Returned (s.takeWhile (· != '\n')) (s'.takeWhile (· != '\n')) ∧
      Returned (s.dropWhile (· != '\n')) (s'.dropWhile (· != '\n')) := by
  induction h with
  | nil => exact ⟨.nil, .nil⟩
  | last => exact ⟨.last, .nil⟩
  | @cons c s s' hr hb h ih =>
    by_cases hc : c = '\n'
    · subst hc
      exact ⟨.nil, .cons hr hb h⟩
    · have hc' : (c != '\n') = true := by simpa using hc
      simp only [List.takeWhile_cons, List.dropWhile_cons, hc', ite_true]
      exact ⟨.cons hr (fun _ hh => newline_not_mem_takeWhile s (List.mem_of_head? hh)) ih.1, ih.2⟩
  | @newline s s' h ih => exact ⟨.last, .cons (by decide) (fun he => absurd he (by decide)) h⟩

/-- Behind white space both texts go on alike. -/
theorem Returned.dropBlank (h : Returned s s') : Returned (s.dropWhile isBlank) (s'.dropWhile isBlank) := by
  induction h with
  | nil => exact .nil
  | last => exact .nil
  | @cons c s s' hr hb h ih =>
    by_cases hc : isBlank c = true
    · rwa [List.dropWhile_cons_of_pos hc, List.dropWhile_cons_of_pos hc]
    · rw [List.dropWhile_cons_of_neg hc, List.dropWhile_cons_of_neg hc]
      exact .cons hr hb h
  | newline _ ih => exact ih

theorem Returned.eq_or (h : Returned s s') (hn : '\n' ∉ s) : s' = s ∨ s' = s ++ ['\r'] := by
  have h' : Returned (s ++ []) s' := by rwa [List.append_nil]
  obtain ⟨b', rfl, hb⟩ := h'.append_inv hn
  cases hb with
  | nil => exact .inl (List.append_nil s)
  | last => exact .inr rfl

theorem Returned.not_mem (h : Returned s s') : '\r' ∉ s := by
  induction h with
  | nil => simp
  | last => simp
  | cons hr _ _ ih => exact fun hm => (List.mem_cons.1 hm).elim (fun he => hr he.symm) ih
  | newline _ ih => exact fun hm => (List.mem_cons.1 hm).elim (by decide) ih

/-- The first lines of both texts are the same up to where both texts halt. -/
theorem Returned.halts (h : Returned s s') :
    ∃ u t t', s = u ++ t ∧ s' = u ++ t' ∧ '\n' ∉ u ∧ Halts t ∧ Halts t' := by
  have hs : s = s.takeWhile (· != '\n') ++ s.dropWhile (· != '\n') := List.takeWhile_append_dropWhile.symm
  have hn : '\n' ∉ s.takeWhile (· != '\n') := newline_not_mem_takeWhile s
  have h' := h
  rw [hs] at h'
  obtain ⟨t', hs', ht⟩ := h'.append_inv hn
  refine ⟨_, _, t', hs, hs', hn, (lineEnd_dropWhile s).halts, ?_⟩
  have hend := lineEnd_dropWhile s
  generalize s.dropWhile (· != '\n') = t at ht hend
  cases ht with
  | nil => exact halts_nil
  | last => rintro c ⟨⟩; decide
  | cons => exact LineEnd.halts hend
  | newline => rintro c ⟨⟩; decide

end Texts

/-! ### String literals -/

namespace Quotation

section Literals

variable {p q start : Position} {s s' r : List Char} {k : Cut} {l : Level} {ls : List Level}

/-- Nested text ends at the same delimiter. -/
theorem Skips.returned (h : Skips l ls s) (hs : Returned (s ++ r) s') :
    ∃ u r', s' = u ++ r' ∧ Skips l ls u ∧ Returned r r' := by
  have hends {l : Level} {c : Char} (h : l.Ends c) : c ≠ '\n' := by
    cases h <;> decide
  -- one character that both texts have
  have step {l l' : Level} {ls ls' : List Level} {c : Char} {s s' : List Char} (hc : c ≠ '\n')
      (hs : Returned (c :: (s ++ r)) s')
      (ih : ∀ {s'}, Returned (s ++ r) s' → ∃ u r', s' = u ++ r' ∧ Skips l' ls' u ∧ Returned r r')
      (hu : ∀ {u}, Skips l' ls' u → Skips l ls (c :: u)) : ∃ u r', s' = u ++ r' ∧ Skips l ls u ∧ Returned r r' := by
    obtain ⟨t', rfl, ht⟩ := hs.cons_inv hc
    obtain ⟨u, r', rfl, hskips, hr⟩ := ih ht
    exact ⟨c :: u, r', rfl, hu hskips, hr⟩
  induction h generalizing s' with
  | finish hc =>
    obtain ⟨t', rfl, ht⟩ := hs.cons_inv (hends hc)
    exact ⟨_, t', rfl, .finish hc, ht⟩
  | leave hc _ ih => exact step (hends hc) hs ih (.leave hc)
  | quote _ ih => exact step (by decide) hs ih .quote
  | brace _ ih => exact step (by decide) hs ih .brace
  | unbrace _ ih => exact step (by decide) hs ih .unbrace
  | inSequence hc _ ih =>
    cases hs with
    | cons _ _ ht =>
      obtain ⟨u, r', rfl, hu, hr⟩ := ih ht
      exact ⟨_, r', rfl, .inSequence hc hu, hr⟩
    | newline ht =>
      -- a sequence goes over the carriage return and the newline
      obtain ⟨u, r', rfl, hu, hr⟩ := ih ht
      exact ⟨'\r' :: '\n' :: u, r', rfl, .inSequence (by decide) (.inSequence hc hu), hr⟩
  | escape d _ ih =>
    cases hs with
    | cons _ hb ht =>
      -- what is behind the backslash is no newline
      obtain ⟨t', rfl, ht'⟩ := ht.cons_inv fun hd => hb rfl (by rw [hd]; rfl)
      obtain ⟨u, r', rfl, hu, hr⟩ := ih ht'
      exact ⟨_, r', rfl, .escape d hu, hr⟩
  | mark hc _ ih =>
    obtain ⟨t', rfl, ht⟩ := hs.cons_inv (Lexer.ne_of_class hc (by decide))
    obtain ⟨v', rfl, hv⟩ := ht.cons_inv (by decide)
    obtain ⟨u, r', rfl, hu, hr⟩ := ih hv
    exact ⟨_, r', rfl, .mark hc hu, hr⟩
  | @inQuotation _ c s hc hm h ih =>
    obtain ⟨t', rfl, ht⟩ := hs.cons_inv fun he => hc (by simp [he])
    obtain ⟨u, r', rfl, hu, hr⟩ := ih ht
    refine ⟨c :: u, r', rfl, .inQuotation hc (fun hmark hh => hm hmark ?_) hu, hr⟩
    -- the next character is no brace in either text
    have hhead : (s ++ r).head? = some '{' := (ht.head?_eq_iff (by decide)).1 (by rw [List.head?_append, hh]; rfl)
    rwa [List.head?_append_of_ne_nil _ h.ne_nil] at hhead

theorem escape_unbroken {x : Char} (h : escape p s = .ok (x, k)) : '\n' ∉ k.taken := by
  obtain ⟨c, ds, hk, hc, hhex⟩ := escape_taken h
  rw [hk, List.mem_cons, not_or]
  exact ⟨hc.symm, fun hm => absurd (hhex _ hm) (by decide)⟩

theorem Unmarked.returned {c : Char} (h : Unmarked c r) {r' : List Char} (hr : Returned r r') : Unmarked c r' := by
  intro hm
  obtain ⟨h1, h2⟩ := h hm
  have hopen {u u' : List Char} (hu : Returned u u') : u'.head? = some '{' → u.head? = some '{' :=
    (hu.head?_eq_iff (by decide)).1
  refine ⟨fun hh => h1 (hopen hr hh), ?_⟩
  rintro t rfl
  cases hr with
  | cons _ _ hr =>
    obtain ⟨u, rfl⟩ := List.head?_eq_some_iff.1 (hopen hr rfl)
    exact h2 u rfl

/-- A piece of a literal stays a piece; only the text of a template sequence changes. -/
theorem TextPiece.returned {c : Char} {value : List Char} {templated : Bool} (h : TextPiece p c r value templated k)
    (hs : Returned (c :: r) s') (q : Position) :
    ∃ r' value' k', s' = c :: r' ∧ TextPiece q c r' value' templated k' ∧ (templated = false → value' = value) ∧
      Returned k.rest k'.rest := by
  have hline {c : Char} (hc : Template.isMark c = true) : c ≠ '\n' := Lexer.ne_of_class hc (by decide)
  cases h with
  | @escape _ x j h =>
    obtain ⟨r', rfl, hr⟩ := hs.cons_inv (by decide)
    have hcut : j.taken ++ j.rest = r := escape_of h
    rw [← hcut] at hr
    obtain ⟨rest', rfl, hrest⟩ := hr.append_inv (escape_unbroken h)
    exact ⟨_, _, _, rfl, .escape (escape_before h q rest'), fun _ => rfl, hrest⟩
  | @template _ r j hc h =>
    obtain ⟨t', rfl, hr⟩ := hs.cons_inv (hline hc)
    obtain ⟨r', rfl, hr'⟩ := hr.cons_inv (by decide)
    have hcut : j.taken ++ j.rest = r := skipNested_of h
    rw [← hcut] at hr'
    obtain ⟨u, rest', rfl, hu, hrest⟩ := (skips_of_skipNested h).returned hr'
    have hb := hu.skipNested (Frame.level_sequence q 0) rfl ((q.next c).next '{') rest'
    exact ⟨_, _, _, rfl, .template hc hb, by simp, hrest⟩
  | doubled hc =>
    obtain ⟨t', rfl, hr⟩ := hs.cons_inv (hline hc)
    obtain ⟨u', rfl, hr'⟩ := hr.cons_inv (hline hc)
    obtain ⟨r', rfl, hrest⟩ := hr'.cons_inv (by decide)
    exact ⟨_, _, _, rfl, .doubled hc, fun _ => rfl, hrest⟩
  | plain hq hb hn h =>
    obtain ⟨r', rfl, hr⟩ := hs.cons_inv hn
    exact ⟨_, _, _, rfl, .plain hq hb hn (h.returned hr), fun _ => rfl, hr⟩

/-- A string literal ends at the same quote, and has the same value, unless it holds a template sequence. -/
theorem literal_returned {x : Contents} (h : literal start p s = .ok (x, k)) (hs : Returned s s')
    (start' q : Position) :
    ∃ x' k', literal start' q s' = .ok (x', k') ∧ x'.templated = x.templated ∧
      (x.templated = false → x'.value = x.value) ∧ Returned k.rest k'.rest := by
  fun_induction literal start p s generalizing x k q s' with
  | case1 => cases h
  | case2 => cases h
  | case3 p c r k hp =>
    cases h
    obtain ⟨rfl, rfl⟩ := piece_finish_inv hp
    obtain ⟨r', rfl, hr⟩ := hs.cons_inv (by decide)
    exact ⟨_, _, literal_finish start' q r', rfl, fun _ => rfl, hr⟩
  | case4 p c r value templated k hp ih =>
    obtain ⟨⟨more, j⟩, hj, he⟩ := Document.eq_ok_of_map h
    cases he
    obtain ⟨r', value', k', rfl, hp', hvalue, hr⟩ := (piece_inv hp).returned hs q
    obtain ⟨more', j', hj', ht, hv, hr'⟩ := ih hj hr (q.after k'.taken)
    refine ⟨⟨value' ++ more'.value, templated || more'.templated⟩, j'.onto k'.taken, ?_, ?_, fun hf => ?_, hr'⟩
    · rw [literal_of_text (hp'.piece_eq start'), hj']
      rfl
    · exact congrArg (templated || ·) ht
    simp only [Bool.or_eq_false_iff] at hf
    show value' ++ more'.value = value ++ more.value
    rw [hvalue hf.1, hv hf.2]

end Literals

end Quotation

/-! ### Heredocs -/

namespace Heredoc

section Heredocs

variable {s s' v v' m : List Char} {k : Cut} {h : Header}

theorem headerEnd?_returned (hk : headerEnd? s = some k) (hs : Returned s s') :
    ∃ k', headerEnd? s' = some k' ∧ Returned k.rest k'.rest := by
  obtain ⟨-, hr⟩ := hs.span (f := isIndent) (by decide) (by decide)
  simp only [headerEnd?] at hk
  split at hk
  · next r hrest =>
    cases hk
    rw [hrest] at hr
    generalize hrest' : (Cut.span isIndent s').rest = t' at hr
    cases hr with
    | cons _ _ hr => exact ⟨⟨(Cut.span isIndent s').taken ++ ['\n'], _⟩, by simp only [headerEnd?, hrest'], hr⟩
    | newline hr =>
      exact ⟨⟨(Cut.span isIndent s').taken ++ ['\r', '\n'], _⟩, by simp only [headerEnd?, hrest'], hr⟩
  · next r hrest =>
    rw [hrest] at hr
    exact absurd List.mem_cons_self hr.not_mem
  · cases hk

theorem marker?_returned {indented : Bool} (hk : marker? indented s = some (h, k)) (hs : Returned s s') :
    ∃ k', marker? indented s' = some (h, k') ∧ Returned k.rest k'.rest := by
  cases s with
  | nil => cases hk
  | cons c r =>
    simp only [marker?] at hk
    split at hk
    · next hc =>
      obtain ⟨e, he, hx⟩ := Option.map_eq_some_iff.1 hk
      cases hx
      obtain ⟨r', rfl, hr⟩ := hs.cons_inv (Lexer.ne_of_class hc (by decide))
      obtain ⟨ht, hr'⟩ := hr.span (f := isMarkerPart) (by decide) (by decide)
      obtain ⟨e', he', hrest⟩ := headerEnd?_returned he hr'
      exact ⟨e'.onto (c :: (Cut.span isMarkerPart r).taken), by
        simp only [marker?, hc, ite_true, ht, he', Option.map_some], hrest⟩
    · cases hk

/-- The opening line says the same with a carriage return at its end. -/
theorem header?_returned (hk : header? s = some (h, k)) (hs : Returned s s') :
    ∃ k', header? s' = some (h, k') ∧ Returned k.rest k'.rest := by
  have hother {c : Char} {r : List Char} (hc : c ≠ '-') : header? (c :: r) = marker? false (c :: r) := by
    unfold header?
    split
    · next hcons => exact absurd (List.cons.inj hcons).1 hc
    · rfl
  cases s with
  | nil => cases hk
  | cons c r =>
    by_cases hc : c = '-'
    · subst hc
      obtain ⟨r', rfl, hr⟩ := hs.cons_inv (by decide)
      obtain ⟨⟨h', j⟩, hj, he⟩ := Option.map_eq_some_iff.1 hk
      cases he
      obtain ⟨j', hj', hrest⟩ := marker?_returned hj hr
      exact ⟨j'.onto ['-'], by simp only [header?, hj', Option.map_some], hrest⟩
    · rw [hother hc] at hk
      have hn : c ≠ '\n' := by
        rintro rfl
        simp [marker?, isMarkerStart, isLatinLetter] at hk
      obtain ⟨r', rfl, -⟩ := hs.cons_inv hn
      rw [hother hc]
      exact marker?_returned hk hs

theorem lineText_returned (h : Returned v v') (hn : '\n' ∉ v) : lineText v' = lineText v := by
  rcases h.eq_or hn with rfl | rfl
  · rfl
  · simp [lineText, trimEnd]

/-- The body has the same lines with carriage returns at their ends. -/
theorem body?_returned {lines : List (List Char)} (hk : body? m s = some (lines, k)) (hs : Returned s s') :
    ∃ k', body? m s' = some (lines, k') ∧ Returned k.rest k'.rest := by
  have hne {s s' : List Char} (h : s ≠ []) (hs : Returned s s') : s' ≠ [] := by
    cases hs <;> simp_all
  have htext {s s' : List Char} (hs : Returned s s') :
      lineText (s'.takeWhile (· != '\n')) = lineText (s.takeWhile (· != '\n')) :=
    lineText_returned hs.line.1 (newline_not_mem_takeWhile _)
  fun_induction body? m s generalizing lines k s' with
  | case1 => cases hk
  | case2 s hs' line =>
    rename_i ht
    cases hk
    have hline : lineText (s'.takeWhile (· != '\n')) = lineText line := htext hs
    rw [body?]
    simp only [hne hs' hs, ite_false, hline, ht, ite_true]
    exact ⟨_, rfl, hs.line.2⟩
  | case3 => cases hk
  | case4 s hs' line ht =>
    rename_i c r hd ih
    obtain ⟨⟨more, j⟩, hj, he⟩ := Option.map_eq_some_iff.1 hk
    cases he
    have hrest := hs.line.2
    have hend := lineEnd_dropWhile s'
    have hend' := lineEnd_dropWhile s
    rw [hd] at hrest hend'
    obtain rfl : c = '\n' := hend' c rfl
    -- the second text goes on with a newline as well
    obtain ⟨r', hd', hr⟩ : ∃ r', s'.dropWhile (· != '\n') = '\n' :: r' ∧ Returned r r' := by
      generalize s'.dropWhile (· != '\n') = t' at hrest hend
      cases hrest with
      | cons _ _ hr => exact ⟨_, rfl, hr⟩
      | newline =>
        have hcr := hend '\r' rfl
        simp at hcr
    obtain ⟨j', hj', hjr⟩ := ih hj hr
    have hline : lineText (s'.takeWhile (· != '\n')) = lineText line := htext hs
    rw [body?]
    simp only [hne hs' hs, ite_false, hline, ht]
    split
    · next hnil =>
      rw [hd'] at hnil
      cases hnil
    · next hcons =>
      rw [hd'] at hcons
      cases hcons
      exact ⟨j'.onto (s'.takeWhile (· != '\n') ++ ['\n']), by rw [hj']; rfl, hjr⟩

end Heredocs

end Heredoc

namespace Lexer

section Delimiters

variable {p q : Position} {r r' s s' : List Char} {k : Cut}

/-- A heredoc has the same value with carriage returns at the ends of its lines. -/
theorem heredoc_returned {tok : Token} (h : heredoc p r = .ok (tok, k)) (hr : Returned r r') (q : Position) :
    ∃ k', heredoc q r' = .ok (tok, k') ∧ Returned k.rest k'.rest := by
  unfold heredoc at h
  split at h
  · cases h
  · next hd j hj =>
    obtain ⟨j', hj', hjr⟩ := Heredoc.header?_returned hj hr
    split at h
    · cases h
    · next lines i hi =>
      obtain ⟨i', hi', hir⟩ := Heredoc.body?_returned hi hjr
      rcases hv : Heredoc.value hd lines with ⟨value, templated⟩
      rw [hv] at h
      cases h
      refine ⟨i'.onto (['<', '<'] ++ j'.taken), ?_, hir⟩
      simp only [heredoc, hj', hi', hv]

/-- A block comment ends at the same delimiter. -/
theorem blockComment?_returned (h : blockComment? s = some k) (hs : Returned s s') :
    ∃ k', blockComment? s' = some k' ∧ Returned k.taken k'.taken ∧ Returned k.rest k'.rest := by
  fun_induction blockComment? s generalizing k s' with
  | case1 r =>
    cases h
    obtain ⟨t', rfl, hr⟩ := hs.cons_inv (by decide)
    obtain ⟨r', rfl, hr'⟩ := hr.cons_inv (by decide)
    exact ⟨⟨['*', '/'], r'⟩, rfl, .cons (by decide) (by simp) (.cons (by decide) (by simp) .nil), hr'⟩
  | case2 c r hc ih =>
    obtain ⟨j, hj, rfl⟩ := Option.map_eq_some_iff.1 h
    have hnot {c : Char} {t : List Char} (h : c = '*' → t.head? ≠ some '/') :
        blockComment? (c :: t) = (blockComment? t).map (·.onto [c]) := by
      rw [blockComment?]
      rintro u rfl rfl
      exact h rfl rfl
    cases hs with
    | @cons _ _ r' hr hb hs =>
      obtain ⟨j', hj', htaken, hrest⟩ := ih hj hs
      have hc' : c = '*' → r'.head? ≠ some '/' := by
        intro hstar hh
        obtain ⟨u, rfl⟩ := List.head?_eq_some_iff.1 ((hs.head?_eq_iff (by decide)).1 hh)
        exact hc u hstar rfl
      refine ⟨j'.onto [c], by rw [hnot hc', hj']; rfl, .cons hr (fun hs hh => hb hs ?_) htaken, hrest⟩
      -- the comment goes on with the character that comes next
      have hcut : j.taken ++ j.rest = r := blockComment?_of hj
      have hfirst : j.taken.head? = some '\n' := hh
      rw [← hcut, List.head?_append, hfirst]
      rfl
    | newline hs =>
      obtain ⟨j', hj', htaken, hrest⟩ := ih hj hs
      refine ⟨(j'.onto ['\n']).onto ['\r'], ?_, .newline htaken, hrest⟩
      rw [hnot (by simp), hnot (by simp), hj']
      rfl
  | case3 => cases h

end Delimiters

end Lexer

end InfraAudit.Hcl
