import InfraAudit.Proofs.Hcl.Delimited
import InfraAudit.Proofs.Hcl.Resolution

/-!
# InfraAudit.Proofs.Hcl.PlainText — one line between quotes and in a heredoc

A line without quotes, backslashes and carriage returns can stand between quotes and in a heredoc.  Three scanners look
for template sequences in it: the literal piece by piece, `Template.contains` and `Template.unescape` each from left to
right.

* `contains_cons`, `unescape_cons`: the two functions on the pieces of a literal.
* `literal_template`: what a literal says of its text is what the two functions say.
* `reads_heredoc`: a heredoc with one line.
* `string_heredoc_alike`: the line has template sequences in both places or in neither, and then its values are alike.
-/

namespace InfraAudit.Hcl

open InfraAudit.Text

/-! ### Template sequences -/

namespace Template

section Scanners

variable {c : Char} {r s u : List Char}

theorem not_doubled_of_unmarked {d e : Char} (h : Quotation.Unmarked c (d :: e :: r)) :
    ¬ (isMark c && d == c && e == '{') = true := by
  intro hc
  simp only [Bool.and_eq_true, beq_iff_eq] at hc
  obtain ⟨⟨hc, rfl⟩, rfl⟩ := hc
  exact (h hc).2 r rfl

/-- Before a character that stands for itself nothing changes. -/
theorem contains_cons (h : Quotation.Unmarked c r) : contains (c :: r) = contains r := by
  have hopen (d : Char) (t : List Char) (hr : r = d :: t) : (isMark c && d == '{') = false := by
    rw [Bool.and_eq_false_imp]
    intro hc
    have := (h hc).1
    rw [hr] at this
    simpa using this
  match r with
  | [] => rfl
  | [d] => exact hopen d [] rfl
  | d :: e :: t => rw [contains, if_neg (not_doubled_of_unmarked h), hopen d (e :: t) rfl, Bool.false_or]

theorem unescape_cons (h : Quotation.Unmarked c r) : unescape (c :: r) = c :: unescape r := by
  match r with
  | [] => rfl
  | [d] => rfl
  | d :: e :: t => rw [unescape, if_neg (not_doubled_of_unmarked h)]

theorem contains_open (h : isMark c = true) (r : List Char) : contains (c :: '{' :: r) = true := by
  have hne : ('{' == c) = false := beq_eq_false_iff_ne.2 (Lexer.ne_of_class h (by decide)).symm
  cases r with
  | nil => simp [contains, h]
  | cons d r => simp [contains, h, hne]

theorem contains_doubled (h : isMark c = true) (r : List Char) : contains (c :: c :: '{' :: r) = contains r := by
  simp [contains, h]

theorem unescape_doubled (h : isMark c = true) (r : List Char) :
    unescape (c :: c :: '{' :: r) = c :: '{' :: unescape r := by
  simp [unescape, h]

theorem unmarked_of_not_isMark (h : isMark c = false) (r : List Char) : Quotation.Unmarked c r := by
  intro hc
  rw [h] at hc
  cases hc

/-- A text without marks stands for itself, whatever follows. -/
theorem template_append (hu : ∀ c ∈ u, isMark c = false) (s : List Char) :
    contains (u ++ s) = contains s ∧ unescape (u ++ s) = u ++ unescape s := by
  induction u with
  | nil => exact ⟨rfl, rfl⟩
  | cons c u ih =>
    rw [List.forall_mem_cons] at hu
    have hc := unmarked_of_not_isMark hu.1 (u ++ s)
    obtain ⟨h1, h2⟩ := ih hu.2
    exact ⟨(contains_cons hc).trans h1, (unescape_cons hc).trans (congrArg _ h2)⟩

theorem template_of_plain (hu : ∀ c ∈ u, isMark c = false) : contains u = false ∧ unescape u = u := by
  have h := template_append hu []
  rwa [List.append_nil, show unescape [] = [] from rfl, List.append_nil] at h

/-- The end of the line is no part of a template sequence. -/
theorem contains_newline (s : List Char) : contains (s ++ ['\n']) = contains s := by
  fun_induction contains s with
  | case1 c d e r h ih => simpa [contains, h] using ih
  | case2 c d e r h ih => simpa [contains, h] using congrArg (isMark c && d == '{' || ·) ih
  | case3 c d => simp [contains]
  | case4 s h1 h2 =>
    match s with
    | [] => rfl
    | [c] => simp [contains]
    | [c, d] => exact absurd rfl (h2 c d)
    | c :: d :: e :: r => exact absurd rfl (h1 c d e r)

theorem unescape_newline (s : List Char) : unescape (s ++ ['\n']) = unescape s ++ ['\n'] := by
  fun_induction unescape s with
  | case1 c d e r h ih => simpa [unescape, h] using ih
  | case2 c d e r h ih => simpa [unescape, h] using ih
  | case3 s h =>
    match s with
    | [] => rfl
    | [c] => rfl
    | [c, d] => simp [unescape]
    | c :: d :: e :: r => exact absurd rfl (h c d e r)

theorem head?_unescape (s : List Char) : (unescape s).head? = s.head? := by
  unfold unescape
  split
  · split <;> rfl
  · rfl

/-- Text stays text. -/
theorem all_unescape {p : Char → Bool} (hb : p '{' = false) (s : List Char) : (unescape s).all p = s.all p := by
  fun_induction unescape s with
  | case1 c d e r h ih =>
    simp only [Bool.and_eq_true, beq_iff_eq] at h
    simp [h.2, hb]
  | case2 c d e r h ih => rw [List.all_cons, List.all_cons, ih]
  | case3 => rfl

end Scanners

end Template

/-! ### Between quotes -/

namespace Quotation

section Literals

variable {start p : Position} {s t u rest : List Char} {k : Cut}

/-- Text without quotes, at the start of what ends with a quote, is before that quote. -/
theorem exists_append_of_quote (hu : '"' ∉ u) (h : t ++ '"' :: rest = u ++ s) :
    ∃ w, t = u ++ w ∧ w ++ '"' :: rest = s := by
  rcases List.append_eq_append_iff.1 h with ⟨w, rfl, hw⟩ | ⟨w, rfl, hw⟩
  · cases w with
    | nil => exact ⟨[], by simp, hw⟩
    | cons c w =>
      obtain rfl : '"' = c := (List.cons.inj hw).1
      exact absurd (by simp) hu
  · exact ⟨w, rfl, hw.symm⟩

/-- What stands for itself before more text does so at the end. -/
theorem Unmarked.of_append {c : Char} (h : Unmarked c (t ++ s)) : Unmarked c t := by
  intro hm
  obtain ⟨h1, h2⟩ := h hm
  refine ⟨fun hh => h1 ?_, fun w hw => h2 (w ++ s) (by rw [hw]; rfl)⟩
  obtain ⟨w, rfl⟩ := List.head?_eq_some_iff.1 hh
  rfl

/-- What a literal of plain text says: whether the text has a template sequence, and if not, the text with doubled
marks written once. -/
theorem literal_template {x : Contents} (ht : ∀ c ∈ t, c ∉ ['"', '\\', '\n'])
    (h : literal start p (t ++ '"' :: rest) = .ok (x, k)) :
    x.templated = Template.contains t ∧ (Template.contains t = false → x.value = Template.unescape t) := by
  generalize hs : t ++ '"' :: rest = s at h
  fun_induction literal start p s generalizing t x k with
  | case1 => cases h
  | case2 => cases h
  | case3 p c r j hp =>
    cases h
    -- the closing quote is the one behind the text
    obtain ⟨rfl, rfl⟩ := piece_finish_inv hp
    cases t with
    | nil => exact ⟨rfl, fun _ => rfl⟩
    | cons d t =>
      obtain rfl : d = '"' := (List.cons.inj hs).1
      exact absurd List.mem_cons_self (ht _ List.mem_cons_self)
  | case4 p c r value templated j hp ih =>
    obtain ⟨⟨more, i⟩, hi, he⟩ := Document.eq_ok_of_map h
    cases he
    cases t with
    | nil =>
      obtain ⟨rfl, rfl⟩ := List.cons.inj hs
      simp [piece] at hp
    | cons d t =>
      have htail : t ++ '"' :: rest = r := (List.cons.inj hs).2
      obtain rfl : d = c := (List.cons.inj hs).1
      rw [List.forall_mem_cons] at ht
      cases piece_inv hp with
      | escape => exact absurd (by simp) ht.1
      | template hc _ =>
        obtain ⟨t', rfl, -⟩ := exists_append_of_quote (u := ['{']) (by simp) htail
        rw [List.singleton_append, Template.contains_open hc]
        exact ⟨rfl, fun h => by cases h⟩
      | doubled hc =>
        have hquote : '"' ∉ [d, '{'] := by simp [(Lexer.ne_of_class hc (by decide) : d ≠ '"').symm]
        obtain ⟨t', rfl, hr'⟩ := exists_append_of_quote hquote htail
        obtain ⟨htemplated, hvalue⟩ := ih (fun a ha => ht.2 a (by simp [ha])) hr' hi
        rw [show [d, '{'] ++ t' = d :: '{' :: t' from rfl, Template.contains_doubled hc, Template.unescape_doubled hc]
        exact ⟨htemplated, fun h => by rw [hvalue h]; rfl⟩
      | plain hq hb hn hu =>
        obtain ⟨htemplated, hvalue⟩ := ih ht.2 htail hi
        rw [← htail] at hu
        rw [Template.contains_cons hu.of_append, Template.unescape_cons hu.of_append]
        exact ⟨htemplated, fun h => by rw [hvalue h]; rfl⟩

/-- A literal without quotes inside ends at the first quote. -/
theorem literal_rest {x : Contents} (ht : '"' ∉ t) (h : literal start p (t ++ ['"']) = .ok (x, k)) :
    k = ⟨t ++ ['"'], []⟩ := by
  obtain ⟨r, hr⟩ := Lexer.literal_ends h
  have hcut : k.taken ++ k.rest = t ++ ['"'] := literal_of h
  have hrest : k.rest = [] := by
    rcases k.rest.eq_nil_or_concat with hnil | ⟨v, d, hv⟩
    · exact hnil
    · -- otherwise the quote that ends the literal would be one of the text
      rw [hr, hv, List.concat_eq_append, ← List.append_assoc] at hcut
      obtain ⟨rfl, -⟩ := List.append_inj' hcut rfl
      exact absurd (by simp) ht
  rw [hrest, List.append_nil] at hcut
  rw [← hcut, ← hrest]

end Literals

end Quotation

namespace Lexer

/-- If a text that starts with a quote has tokens, a literal stands there. -/
theorem literal_of_lex {s : List Char} {x : Lexed} (h : lex (String.ofList ('"' :: s)) = .ok x) :
    ∃ y, Quotation.literal .start (Position.start.next '"') s = .ok y := by
  obtain ⟨ls, hls, -⟩ := Document.eq_ok_of_map h
  rw [String.toList_ofList, lexemes] at hls
  split at hls
  · cases hls
  · next item k hk =>
    -- the first lexeme is the token that starts with the quote, which is a string
    obtain ⟨y, hy, -⟩ := Document.eq_ok_of_map (show Except.map _ (token .start '"' s) = .ok (item, k) from hk)
    obtain ⟨z, hz, -⟩ := Document.eq_ok_of_map (show Except.map _ (Quotation.literal _ _ s) = .ok y from hy)
    exact ⟨z, hz⟩

end Lexer

/-! ### In a heredoc -/

namespace Heredoc

/-- A marker of heredocs. -/
def IsMarker (m : List Char) : Prop :=
  ∃ c r, m = c :: r ∧ isMarkerStart c = true ∧ ∀ d ∈ r, isMarkerPart d = true

/-- A heredoc whose only line is `t`: its opening line, the line and the one that ends it. -/
def ofLine (indented : Bool) (marker t : List Char) : List Char :=
  '<' :: '<' :: ((if indented then ['-'] else []) ++ (marker ++ '\n' :: (t ++ '\n' :: marker)))

section Heredocs

variable {m t s rest : List Char} {c : Char}

/-- The characters of markers are no white space. -/
theorem isBlank_of_isMarkerPart (h : isMarkerPart c = true) : isBlank c = false := by
  cases hb : isBlank c with
  | false => rfl
  | true =>
    have hpart := forall_isBlank (p := fun c => isMarkerPart c = false) (by decide +kernel) hb
    rw [h] at hpart
    cases hpart

theorem IsMarker.isMarkerPart (h : IsMarker m) : ∀ d ∈ m, isMarkerPart d = true := by
  obtain ⟨c, r, rfl, hc, hr⟩ := h
  refine List.forall_mem_cons.2 ⟨?_, hr⟩
  rw [Heredoc.isMarkerPart, hc]
  rfl

theorem marker?_ofLine (hm : IsMarker m) (indented : Bool) (s : List Char) :
    marker? indented (m ++ '\n' :: s) = some (⟨indented, m⟩, ⟨m ++ ['\n'], s⟩) := by
  obtain ⟨c, r, rfl, hc, hr⟩ := hm
  have hspan : Cut.span isMarkerPart (r ++ '\n' :: s) = ⟨r, '\n' :: s⟩ :=
    Lexer.span_append hr (by rintro d ⟨⟩; decide)
  have hend : headerEnd? ('\n' :: s) = some ⟨['\n'], s⟩ := rfl
  rw [List.cons_append, marker?, if_pos hc]
  simp only [hspan, hend]
  rfl

theorem header?_ofLine (hm : IsMarker m) (indented : Bool) (s : List Char) :
    header? ((if indented then ['-'] else []) ++ (m ++ '\n' :: s)) =
      some (⟨indented, m⟩, ⟨(if indented then ['-'] else []) ++ (m ++ ['\n']), s⟩) := by
  cases indented with
  | true =>
    rw [if_pos rfl, List.singleton_append, header?, marker?_ofLine hm]
    rfl
  | false =>
    obtain ⟨c, r, rfl, hc, -⟩ := id hm
    have hne : c ≠ '-' := Lexer.ne_of_class hc (by decide)
    have h : header? (c :: (r ++ '\n' :: s)) = marker? false (c :: (r ++ '\n' :: s)) := by
      rw [header?]
      rintro r' he
      exact hne (List.cons.inj he).1
    rw [if_neg Bool.false_ne_true, List.nil_append, List.nil_append, List.cons_append, h, ← List.cons_append,
      marker?_ofLine hm]

theorem lineText_eq_self (h : '\r' ∉ s) : lineText s = s := by
  have hrev : s.reverse.dropWhile (· == '\r') = s.reverse := by
    rw [List.dropWhile_eq_self_iff]
    intro hl he
    have hmem : s.reverse[0] ∈ s := List.mem_reverse.1 (List.getElem_mem hl)
    exact h (beq_iff_eq.1 he ▸ hmem)
  rw [lineText, trimEnd, hrev, List.reverse_reverse]

/-- The line of the marker ends the body. -/
theorem body?_marker (hm : IsMarker m) (hr : LineEnd rest) : body? m (m ++ rest) = some ([], ⟨m, rest⟩) := by
  have hpart := hm.isMarkerPart
  have hline : ∀ c ∈ m, (c != '\n') = true := fun c hc => by
    simpa using Lexer.ne_of_class (hpart c hc) (by decide : Heredoc.isMarkerPart '\n' = false)
  have hspan : Cut.span (· != '\n') (m ++ rest) = ⟨m, rest⟩ :=
    Lexer.span_append hline fun c hc => by simp [hr c hc]
  have htake : (m ++ rest).takeWhile (· != '\n') = m := (Cut.mk.inj hspan).1
  have htext : lineText m = m :=
    lineText_eq_self fun hc => Lexer.ne_of_class (hpart _ hc) (by decide : Heredoc.isMarkerPart '\r' = false) rfl
  have htrim : trim isBlank m = m :=
    Expression.trim_eq_self (fun c hc => isBlank_of_isMarkerPart (hpart c (List.mem_of_head? hc)))
      fun c hc => isBlank_of_isMarkerPart (hpart c (List.mem_of_getLast? hc))
  have hne : m ++ rest ≠ [] := by
    obtain ⟨c, r, rfl, -⟩ := hm
    exact List.cons_ne_nil _ _
  rw [body?]
  simp only [hne, ite_false, htake, htext, htrim, ite_true, hspan]

theorem body?_ofLine (hm : IsMarker m) (hn : '\n' ∉ t) (hr : '\r' ∉ t) (ht : trim isBlank t ≠ m)
    (hrest : LineEnd rest) :
    body? m (t ++ '\n' :: (m ++ rest)) = some ([t], ⟨t ++ '\n' :: m, rest⟩) := by
  have hspan : Cut.span (· != '\n') (t ++ '\n' :: (m ++ rest)) = ⟨t, '\n' :: (m ++ rest)⟩ :=
    Lexer.span_append (fun c hc => by simpa using ne_of_mem_of_not_mem hc hn) (by rintro c ⟨⟩; decide)
  obtain ⟨htake, hdrop⟩ := Cut.mk.inj hspan
  have hne : t ++ '\n' :: (m ++ rest) ≠ [] := by simp
  rw [body?]
  simp only [hne, ite_false, htake, lineText_eq_self hr, ht]
  split
  · next h =>
    rw [hdrop] at h
    cases h
  · next h =>
    rw [hdrop] at h
    cases h
    rw [body?_marker hm hrest]
    simp [Cut.onto]

/-- Before the end of a line, a heredoc with one line reads as one token, wherever it stands. -/
theorem reads_heredoc (hm : IsMarker m) (hn : '\n' ∉ t) (hr : '\r' ∉ t) (ht : trim isBlank t ≠ m) (indented : Bool)
    (hrest : LineEnd rest) :
    Lexer.Reads (ofLine indented m t)
      [.heredoc (String.ofList (value ⟨indented, m⟩ [t]).1) (value ⟨indented, m⟩ [t]).2] rest := by
  refine Lexer.reads_token (by decide) (by decide) fun p => ?_
  have htext : ('<' :: ((if indented then ['-'] else []) ++ (m ++ '\n' :: (t ++ '\n' :: m)))) ++ rest =
      '<' :: ((if indented then ['-'] else []) ++ (m ++ '\n' :: (t ++ '\n' :: (m ++ rest)))) := by simp
  have hheader := header?_ofLine hm indented (t ++ '\n' :: (m ++ rest))
  have hbody := body?_ofLine hm hn hr ht hrest
  rw [htext]
  have htoken (r : List Char) : Lexer.token p '<' ('<' :: r) = Lexer.heredoc p r := rfl
  rw [htoken, Lexer.heredoc, hheader]
  simp only [hbody]
  simp [Cut.onto]

theorem drop_indentation (line : List Char) : line.drop (indentation line) = line.dropWhile isIndent := by
  have hsplit : line.takeWhile isIndent ++ line.dropWhile isIndent = line := List.takeWhile_append_dropWhile
  calc line.drop (indentation line)
      = (line.takeWhile isIndent ++ line.dropWhile isIndent).drop (line.takeWhile isIndent).length := by
        rw [hsplit, indentation]
    _ = line.dropWhile isIndent := List.drop_left

/-- A line by itself loses its own indentation; one that holds white space only loses spaces and tabs at both ends. -/
theorem dedent_singleton (t : List Char) :
    dedent [t] = [if isBlankLine t then trim isIndent t else t.dropWhile isIndent] := by
  cases hb : isBlankLine t with
  | true => simp [dedent, hb]
  | false => simp [dedent, hb, drop_indentation]

theorem text_singleton (t : List Char) : text [t] = t ++ ['\n'] := by
  simp [text]

theorem isMark_of_isBlank (h : isBlank c = true) : Template.isMark c = false :=
  forall_isBlank (p := fun c => Template.isMark c = false) (by decide +kernel) h

theorem isBlank_of_isIndent (h : isIndent c = true) : isBlank c = true := by
  obtain rfl | rfl : c = ' ' ∨ c = '\t' := by simpa [isIndent] using h
  · decide
  · decide

/-- Removing the indentation of a line neither makes nor breaks template sequences and doubled marks. -/
theorem template_dedent (t : List Char) :
    ∃ u, dedent [t] = [u] ∧ Template.contains u = Template.contains t ∧
      dedent [Template.unescape t] = [Template.unescape u] := by
  have hall : isBlankLine (Template.unescape t) = isBlankLine t := Template.all_unescape (by decide) t
  have hplain {s : List Char} (hs : ∀ c ∈ s, isBlank c = true) := 
    Template.template_of_plain fun c hc => isMark_of_isBlank (hs c hc)
  rw [dedent_singleton, dedent_singleton, hall]
  cases hb : isBlankLine t with
  | true =>
    have ht : ∀ c ∈ t, isBlank c = true := List.all_eq_true.1 hb
    obtain ⟨h1, h2⟩ := hplain ht
    obtain ⟨h3, h4⟩ := hplain fun c hc => ht c ((Expression.trim_sublist isIndent t).mem hc)
    exact ⟨trim isIndent t, rfl, h3.trans h1.symm, by rw [h2, h4, if_pos rfl]⟩
  | false =>
    have hu : ∀ c ∈ t.takeWhile isIndent, isIndent c = true := fun c hc => List.mem_takeWhile_imp hc
    obtain ⟨h1, h2⟩ := Template.template_append (s := t.dropWhile isIndent)
      fun c hc => isMark_of_isBlank (isBlank_of_isIndent (hu c hc))
    rw [List.takeWhile_append_dropWhile] at h1 h2
    have hhead : ∀ c ∈ (Template.unescape (t.dropWhile isIndent)).head?, isIndent c = false := by
      rw [Template.head?_unescape]
      intro c hc
      have := List.head?_dropWhile_not isIndent t
      rw [Option.mem_def.1 hc] at this
      simpa using this
    have hdrop := (Cut.mk.inj (Lexer.span_append hu hhead)).2
    exact ⟨t.dropWhile isIndent, rfl, h1.symm, by rw [h2, hdrop, if_neg Bool.false_ne_true]⟩

/-- What a heredoc with one line says: whether the line has a template sequence, and if not, the line with doubled marks
written once. -/
theorem value_singleton (indented : Bool) (m t : List Char) :
    (value ⟨indented, m⟩ [t]).2 = Template.contains t ∧
      (Template.contains t = false → (value ⟨indented, m⟩ [t]).1 =
        if indented then text (dedent [Template.unescape t]) else Template.unescape t ++ ['\n']) := by
  obtain ⟨u, hu, hcontains, hunescape⟩ : ∃ u, (if indented then dedent [t] else [t]) = [u] ∧
      Template.contains u = Template.contains t ∧
      (if indented then text (dedent [Template.unescape t]) else Template.unescape t ++ ['\n']) =
        Template.unescape u ++ ['\n'] := by
    cases indented with
    | true =>
      obtain ⟨u, h1, h2, h3⟩ := template_dedent t
      exact ⟨u, h1, h2, (congrArg text h3).trans (text_singleton _)⟩
    | false => exact ⟨t, rfl, rfl, rfl⟩
  rw [hunescape]
  simp only [value, hu, text_singleton, Template.contains_newline, Template.unescape_newline, hcontains]
  cases Template.contains t with
  | true => exact ⟨rfl, fun h => by cases h⟩
  | false => exact ⟨rfl, fun _ => rfl⟩

end Heredocs

end Heredoc

/-! ### The same line in both places -/

section Lines

variable {t : List Char}

/-- A line between quotes is one string, and in a heredoc that it does not end it is one heredoc.  Each of the two has
template sequences if the line has.  If it has none, the value of the string is the line with doubled marks written
once, and the heredoc has the same line: as it is, or without its indentation where that is removed. -/
theorem string_heredoc_alike {x : Lexed} (ht : ∀ c ∈ t, c ∉ ['"', '\\', '\n', '\r'])
    (hx : lex (String.ofList ('"' :: (t ++ ['"']))) = .ok x) :
    ∃ value : List Char,
      x.tokens.map PlacedToken.token = [.string (String.ofList value) (Template.contains t)] ∧
      (Template.contains t = false → value = Template.unescape t) ∧
      ∀ (indented : Bool) (marker : List Char), Heredoc.IsMarker marker → trim isBlank t ≠ marker →
        ∃ (y : Lexed) (text : List Char), lex (String.ofList (Heredoc.ofLine indented marker t)) = .ok y ∧
          y.tokens.map PlacedToken.token = [.heredoc (String.ofList text) (Template.contains t)] ∧
          (Template.contains t = false →
            text = if indented then Heredoc.text (Heredoc.dedent [value]) else value ++ ['\n']) := by
  have hmem (a : Char) (ha : a ∈ ['"', '\\', '\n', '\r']) : a ∉ t := fun h => ht a h ha
  obtain ⟨⟨contents, k⟩, hk⟩ := Lexer.literal_of_lex hx
  obtain ⟨htemplated, hvalue⟩ := Quotation.literal_template
    (fun c hc h => ht c hc (List.mem_of_mem_take (i := 3) h)) hk
  obtain rfl := Quotation.literal_rest (hmem '"' (by simp)) hk
  have htokens : x.tokens.map PlacedToken.token = [.string (String.ofList contents.value) (Template.contains t)] := by
    obtain ⟨x', hx', hts, -⟩ := (Quotation.reads_literal hk []).lex_ofList
    rw [hx] at hx'
    cases hx'
    rw [hts, htemplated]
  refine ⟨contents.value, htokens, hvalue, fun indented marker hm hne => ?_⟩
  have hend : LineEnd [] := by rintro c ⟨⟩
  have hreads := Heredoc.reads_heredoc hm (hmem '\n' (by simp)) (hmem '\r' (by simp)) hne indented hend
  obtain ⟨y, hy, hts, -⟩ := hreads.lex_ofList
  obtain ⟨h1, h2⟩ := Heredoc.value_singleton indented marker t
  refine ⟨y, _, hy, by rw [hts, h1], fun h => ?_⟩
  rw [h2 h, hvalue h]

/-- An odd number of marks before a brace, with white space around, and a marker with every kind of character. -/
theorem string_heredoc_alike_marks :
    ∃ t marker : List Char, t = "  $$$\x7ba\x7d%%\x7bb\x7d ".toList ∧ marker = "E_1-x".toList ∧
      (∀ c ∈ t, c ∉ ['"', '\\', '\n', '\r']) ∧ Heredoc.IsMarker marker ∧ trim isBlank t ≠ marker ∧
      ∃ x y z : Lexed,
        lex (String.ofList ('"' :: (t ++ ['"']))) = .ok x ∧
        x.tokens.map PlacedToken.token = [.string "  $$\x7ba\x7d%\x7bb\x7d " false] ∧
        lex (String.ofList (Heredoc.ofLine false marker t)) = .ok y ∧
        y.tokens.map PlacedToken.token = [.heredoc "  $$\x7ba\x7d%\x7bb\x7d \n" false] ∧
        lex (String.ofList (Heredoc.ofLine true marker t)) = .ok z ∧
        z.tokens.map PlacedToken.token = [.heredoc "$$\x7ba\x7d%\x7bb\x7d \n" false] := by
  obtain ⟨t, ht⟩ : ∃ t, t = "  $$$\x7ba\x7d%%\x7bb\x7d ".toList := ⟨_, rfl⟩
  obtain ⟨marker, hmarker⟩ : ∃ marker, marker = "E_1-x".toList := ⟨_, rfl⟩
  have hline : ∀ c ∈ t, c ∉ ['"', '\\', '\n', '\r'] := by
    have hall : t.all (fun c => !(['"', '\\', '\n', '\r'].contains c)) = true := by
      rw [ht]
      decide
    intro c hc
    simpa using List.all_eq_true.1 hall c hc
  have hm : Heredoc.IsMarker marker := by
    rw [hmarker]
    exact ⟨'E', "_1-x".toList, by decide, by decide, List.all_eq_true.1 (by decide)⟩
  have hne : trim isBlank t ≠ marker := by
    rw [ht, hmarker]
    decide +kernel
  have hcontains : Template.contains t = false := by
    rw [ht]
    decide
  obtain ⟨x, hx⟩ : ∃ x, lex (String.ofList ('"' :: (t ++ ['"']))) = .ok x := by
    have hok : (lex (String.ofList ('"' :: (t ++ ['"'])))).isOk = true := by
      rw [ht]
      decide +kernel
    cases h : lex (String.ofList ('"' :: (t ++ ['"']))) with
    | ok x => exact ⟨x, rfl⟩
    | error e =>
      rw [h] at hok
      cases hok
  obtain ⟨value, hstring, hvalue, hheredoc⟩ := string_heredoc_alike hline hx
  obtain rfl := hvalue hcontains
  obtain ⟨y, v, hy, hytokens, hv⟩ := hheredoc false marker hm hne
  obtain ⟨z, w, hz, hztokens, hw⟩ := hheredoc true marker hm hne
  refine ⟨t, marker, ht, hmarker, hline, hm, hne, x, y, z, hx, ?_, hy, ?_, hz, ?_⟩
  · rw [hstring, hcontains, ht]
    decide
  · rw [hytokens, hcontains, hv hcontains, ht]
    decide
  · rw [hztokens, hcontains, hw hcontains, ht]
    decide +kernel

end Lines

end InfraAudit.Hcl
