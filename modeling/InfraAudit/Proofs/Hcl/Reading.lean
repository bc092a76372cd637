import InfraAudit.Hcl.Lexer

/-!
# InfraAudit.Proofs.Hcl.Reading — texts read piece by piece

* `Lexer.Reads s ts rest`: before `rest`, the text `s` reads as the tokens `ts`, wherever it stands.
* `Reads.append`: what two pieces read as is what they read as together.
* `reads_blank`, `reads_newline`, `reads_symbol`, `reads_identifier`, `reads_number`: one word of the language.
* `escaped`: a text as it stands between quotes.  `reads_quotedText`: between quotes every text reads as itself.
-/

namespace InfraAudit.Hcl

open InfraAudit.Text

namespace Lexer

/-! ### Pieces of a text -/

/-- The tokens and the comments of a text that stands at `p`. -/
def read (p : Position) (s : List Char) : Except Failure (List PlacedToken × List Comment) :=
  (lexemes p s).map fun ls => (ls.filterMap Lexeme.token?, ls.filterMap Lexeme.comment?)

/-- Before `rest`, the text `s` reads as the tokens `ts`, wherever it stands, and it has no comments. -/
def Reads (s : List Char) (ts : List Token) (rest : List Char) : Prop :=
  ∀ p, ∃ us : List PlacedToken, us.map PlacedToken.token = ts ∧
    read p (s ++ rest) = (read (p.after s) rest).map fun (vs, cs) => (us ++ vs, cs)

section Pieces

variable {p : Position} {c : Char} {r s t rest : List Char} {ts us : List Token} {tok : Token}

theorem lex_eq_read (source : String) :
    lex source = (read .start source.toList).map fun (ts, cs) => ⟨ts, cs, Position.start.after source.toList⟩ := by
  unfold lex read
  cases lexemes .start source.toList <;> rfl

theorem lexemes_cons {item : Item} {k : Cut} (h : lexeme p c r = .ok (item, k)) :
    lexemes p (c :: r) = (lexemes (p.after k.taken) k.rest).map (⟨item, p, k.taken⟩ :: ·) := by
  rw [lexemes]
  split <;> simp_all

/-- The first lexeme gives at most one token or comment. -/
theorem read_cons {item : Item} {k : Cut} (h : lexeme p c r = .ok (item, k)) :
    read p (c :: r) = (read (p.after k.taken) k.rest).map fun (ts, cs) =>
      ((⟨item, p, k.taken⟩ : Lexeme).token?.toList ++ ts, (⟨item, p, k.taken⟩ : Lexeme).comment?.toList ++ cs) := by
  rw [read, read, lexemes_cons h]
  cases lexemes (p.after k.taken) k.rest with
  | error e => rfl
  | ok ls => cases item <;> rfl

/-- A blank lexeme gives nothing. -/
theorem read_blank {k : Cut} (h : lexeme p c r = .ok (.blank, k)) :
    read p (c :: r) = read (p.after k.taken) k.rest := by
  rw [read_cons h]
  cases read (p.after k.taken) k.rest <;> rfl

theorem Reads.nil : Reads [] [] rest :=
  fun p => ⟨[], rfl, by cases h : read p rest <;> simp [Except.map, h]⟩

/-- What two pieces read as is what they read as together. -/
theorem Reads.append (h : Reads s ts (t ++ rest)) (h' : Reads t us rest) : Reads (s ++ t) (ts ++ us) rest := by
  intro p
  obtain ⟨xs, rfl, hx⟩ := h p
  obtain ⟨ys, rfl, hy⟩ := h' (p.after s)
  refine ⟨xs ++ ys, List.map_append, ?_⟩
  rw [List.append_assoc, hx, hy, Position.after_append]
  cases read ((p.after s).after t) rest <;> simp [Except.map]

/-- A text that reads as `ts` up to its end is one with these tokens. -/
theorem Reads.lex {source : String} (h : Reads source.toList ts []) :
    ∃ x, lex source = .ok x ∧ x.tokens.map PlacedToken.token = ts ∧ x.comments = [] := by
  obtain ⟨us, hu, hr⟩ := h .start
  rw [List.append_nil] at hr
  refine ⟨⟨us, [], Position.start.after source.toList⟩, ?_, hu, rfl⟩
  rw [lex_eq_read, hr]
  simp [read, lexemes, Except.map]

theorem Reads.lex_ofList (h : Reads s ts []) :
    ∃ x, Hcl.lex (String.ofList s) = .ok x ∧ x.tokens.map PlacedToken.token = ts ∧ x.comments = [] :=
  Reads.lex (by rwa [String.toList_ofList])

/-! ### Words -/

theorem lexeme_blank (p : Position) (hc : isBlankChar c = true) (r : List Char) :
    lexeme p c r = .ok (.blank, (Cut.span isBlankChar r).onto [c]) := by
  simp [lexeme, hc]

/-- Blanks do not matter. -/
theorem reads_blank (hc : isBlankChar c = true) : Reads [c] [] rest := by
  intro p
  have h : read p (c :: rest) = read (p.next c) rest := by
    rw [read_blank (lexeme_blank p hc rest)]
    cases rest with
    | nil => rfl
    | cons d r =>
      -- blanks that follow belong to the same lexeme
      by_cases hd : isBlankChar d = true
      · rw [read_blank (lexeme_blank (p.next c) hd r)]
        simp [Cut.span, Cut.onto, hd]
      · simp [Cut.span, Cut.onto, hd]
  refine ⟨[], rfl, ?_⟩
  rw [List.singleton_append, h]
  cases h' : read (p.next c) rest <;> simp [Except.map, h']

/-- A token that takes exactly the text `c :: s`. -/
theorem reads_token (hb : isBlankChar c = false) (hc : c ≠ '#' ∧ c ≠ '/')
    (h : ∀ p, token p c (s ++ rest) = .ok (tok, ⟨c :: s, rest⟩)) : Reads (c :: s) [tok] rest := by
  intro p
  have hl : lexeme p c (s ++ rest) = .ok (.token tok, ⟨c :: s, rest⟩) := by
    simp [lexeme, hb, hc.1, hc.2, h, Except.map]
  exact ⟨[⟨tok, p, (⟨.token tok, p, c :: s⟩ : Lexeme).endLine⟩], rfl, read_cons hl⟩

theorem reads_newline : Reads ['\n'] [.newline] rest :=
  reads_token (by decide) (by decide) fun p => by simp [token]

/-- A character that can only start punctuation. -/
def isSymbol (c : Char) : Bool :=
  !isBlankChar c && !isDigit c && !isIdentStart c && !(['\n', '"', '#', '/', '<'].contains c)

theorem reads_symbol (hc : isSymbol c = true) (h : punctuation? c rest = some (tok, ⟨[c], rest⟩)) :
    Reads [c] [tok] rest := by
  simp only [isSymbol, Bool.and_eq_true, Bool.not_eq_true', List.contains_cons, List.contains_nil,
    Bool.or_eq_false_iff, beq_eq_false_iff_ne] at hc
  obtain ⟨⟨⟨hb, hd⟩, hi⟩, hn, hq, hh, hs, hl, -⟩ := hc
  exact reads_token hb ⟨hh, hs⟩ fun p => by simp [token, hn, hq, hl, hd, hi, symbol, h]

/-- A character that starts no longer punctuation stands for itself. -/
theorem punctuation?_single (h : single? c = some tok) (hp : ∀ d, pair? c d = none) (hc : c ≠ '.') :
    punctuation? c rest = some (tok, ⟨[c], rest⟩) := by
  cases rest with
  | nil => simp [punctuation?, h]
  | cons d r => simp [punctuation?, h, hp, hc]

theorem reads_single (hc : c ∈ ['{', '}', '[', ']', ',', '-']) (h : single? c = some tok) : Reads [c] [tok] rest := by
  simp only [List.mem_cons, List.not_mem_nil, or_false] at hc
  rcases hc with rfl | rfl | rfl | rfl | rfl | rfl <;>
    exact reads_symbol (by decide +kernel) (punctuation?_single h (fun _ => rfl) (by decide))

/-- An equals sign between blanks. -/
theorem reads_equals : Reads [' ', '=', ' '] [.equals] rest :=
  (reads_blank rfl).append ((reads_symbol (by decide +kernel) rfl).append (reads_blank rfl))

/-- A text before which an identifier or a number ends. -/
def Apart (rest : List Char) : Prop :=
  ∀ c ∈ rest.head?, isIdentPart c = false ∧ c ≠ '.'

theorem apart_cons (h : isIdentPart c = false) (hd : c ≠ '.') : Apart (c :: rest) := by
  rintro d ⟨⟩
  exact ⟨h, hd⟩

theorem span_append {f : Char → Bool} (hs : ∀ d ∈ s, f d = true) (hr : ∀ d ∈ rest.head?, f d = false) :
    Cut.span f (s ++ rest) = ⟨s, rest⟩ := by
  rw [Cut.span, List.takeWhile_append_of_pos hs, List.dropWhile_append_of_pos hs]
  cases rest with
  | nil => simp
  | cons d r => simp [hr d rfl]

theorem toNat_of_isDigit (h : isDigit c = true) : 0x30 ≤ c.toNat ∧ c.toNat ≤ 0x39 := by
  simp only [isDigit, Bool.and_eq_true, decide_eq_true_eq, Char.le_def, UInt32.le_iff_toNat_le] at h
  exact h

theorem inRanges_of_mem_first {n first last : Nat} (h : first ≤ n ∧ n ≤ last) (rs : List CharRange) :
    inRanges n ((first, last) :: rs) = true := by
  simp [inRanges, h.2, Nat.not_lt.2 h.1]

/-- The ten digits come first in the tables. -/
theorem isWordChar_of_isDigit (h : isDigit c = true) : isWordChar c = true ∧ isDecimal c = true :=
  ⟨inRanges_of_mem_first (toNat_of_isDigit h) _, inRanges_of_mem_first (toNat_of_isDigit h) _⟩

theorem ne_of_class {f : Char → Bool} {d : Char} (h : f c = true) (hd : f d = false) : c ≠ d := by
  rintro rfl
  rw [h] at hd
  cases hd

theorem ne_of_isIdentStart (h : isIdentStart c = true) : isBlankChar c = false ∧ isDigit c = false ∧
    c ≠ '\n' ∧ c ≠ '"' ∧ c ≠ '#' ∧ c ≠ '/' ∧ c ≠ '<' := by
  have ne (d : Char) (hd : isIdentStart d = false) : c ≠ d := ne_of_class h hd
  refine ⟨?_, ?_, ne _ (by decide), ne _ (by decide), ne _ (by decide), ne _ (by decide), ne _ (by decide)⟩
  · have hm : c ≠ '\ufeff' := ne _ (by decide +kernel)
    simp [isBlankChar, ne ' ' (by decide), ne '\t' (by decide), ne '\r' (by decide), hm]
  · cases hd : isDigit c with
    | false => rfl
    | true => simp [isIdentStart, isWordChar_of_isDigit hd] at h

/-- Whether a name is an identifier: a first character and later ones of their classes. -/
def isIdentifier (name : String) : Bool :=
  match name.toList with
  | [] => false
  | c :: s => isIdentStart c && s.all isIdentPart

theorem reads_identifier {name : String} (h : isIdentifier name = true) (hr : Apart rest) :
    Reads name.toList [.identifier name] rest := by
  obtain ⟨c, s, hn, hc, hs⟩ :
      ∃ c s, name.toList = c :: s ∧ isIdentStart c = true ∧ ∀ d ∈ s, isIdentPart d = true := by
    unfold isIdentifier at h
    split at h
    · cases h
    · next c s hn =>
      rw [Bool.and_eq_true, List.all_eq_true] at h
      exact ⟨c, s, hn, h.1, h.2⟩
  obtain ⟨hb, hd, hl, hq, hh, hsl, hlt⟩ := ne_of_isIdentStart hc
  have ht : identifierTail (s ++ rest) = ⟨s, rest⟩ := span_append hs fun d hd => (hr d hd).1
  rw [hn]
  refine reads_token hb ⟨hh, hsl⟩ fun p => ?_
  simp [token, hl, hq, hlt, hd, hc, ht, Cut.onto, ← hn]

theorem reads_number (hc : isDigit c = true) (hs : ∀ d ∈ s, isDigit d = true) (hr : Apart rest) :
    Reads (c :: s) [.number (String.ofList (c :: s))] rest := by
  have hd : ∀ d ∈ rest.head?, isDigit d = false := by
    intro d hd
    have hp : isIdentPart d = false := (hr d hd).1
    cases h : isDigit d with
    | false => rfl
    | true => simp [isIdentPart, isWordChar_of_isDigit h] at hp
  -- neither a fraction nor an exponent follows
  have hf : fraction rest = .none rest := by
    unfold fraction
    split
    · next d r => exact absurd rfl (hr '.' rfl).2
    · rfl
  have he : exponent rest = .none rest := by
    cases rest with
    | nil => rfl
    | cons d r =>
      have hp : isIdentPart d = false := (hr d rfl).1
      have he : d ≠ 'e' := (ne_of_class (by decide) hp).symm
      have hE : d ≠ 'E' := (ne_of_class (by decide) hp).symm
      simp [exponent, he, hE]
  have ht : numberTail (s ++ rest) = ⟨s, rest⟩ := by
    simp [numberTail, span_append hs hd, hf, he, Cut.none]
  have ne (d : Char) (hd : isDigit d = false) : c ≠ d := ne_of_class hc hd
  have hb : isBlankChar c = false := by
    simp [isBlankChar, ne ' ' (by decide), ne '\t' (by decide), ne '\r' (by decide), ne '\ufeff' (by decide)]
  refine reads_token hb ⟨ne '#' (by decide), ne '/' (by decide)⟩ fun p => ?_
  simp [token, ne '\n' (by decide), ne '"' (by decide), ne '<' (by decide), hc, ht, Cut.onto]

end Pieces

end Lexer

/-! ### Between quotes -/

namespace Quotation

/-- A character as it stands between quotes: a quote, a backslash and a newline are escaped. -/
def escapedChar (c : Char) : List Char :=
  if c == '"' || c == '\\' then ['\\', c] else if c == '\n' then ['\\', 'n'] else [c]

/-- A text as it stands between quotes; a mark before a brace is doubled. -/
def escaped : List Char → List Char
  | [] => []
  | [c] => escapedChar c
  | c :: d :: r =>
    if Template.isMark c && d == '{' then c :: c :: d :: escaped r else escapedChar c ++ escaped (d :: r)

section Escaped

variable {start p : Position} {c : Char} {s r rest : List Char}

/-- Before `r`, a mark `c` neither starts a template sequence nor stands for one. -/
def Unmarked (c : Char) (r : List Char) : Prop :=
  Template.isMark c = true → r.head? ≠ some '{' ∧ ∀ t, r ≠ c :: '{' :: t

theorem literal_of_text {k : Cut} {value : List Char} {templated : Bool}
    (h : piece start p c r = .ok (.text value templated, k)) :
    literal start p (c :: r) = (literal start (p.after k.taken) k.rest).map fun (more, j) =>
      (⟨value ++ more.value, templated || more.templated⟩, j.onto k.taken) := by
  rw [literal]
  split <;> simp_all

theorem literal_finish (start p : Position) (rest : List Char) :
    literal start p ('"' :: rest) = .ok (⟨[], false⟩, ⟨['"'], rest⟩) := by
  have h : piece start p '"' rest = .ok (.finish, ⟨['"'], rest⟩) := by simp [piece]
  rw [literal]
  split <;> simp_all

theorem piece_backslash {x d : Char} (h : simpleEscape? d = some x) :
    piece start p '\\' (d :: r) = .ok (.text [x] false, ⟨['\\', d], r⟩) := by
  simp [piece, escape, h, Except.map, Cut.onto]

theorem piece_plain (hq : c ≠ '"') (hb : c ≠ '\\') (hn : c ≠ '\n') (h : Unmarked c r) :
    piece start p c r = .ok (.text [c] false, ⟨[c], r⟩) := by
  simp only [piece, beq_eq_false_iff_ne.2 hq, beq_eq_false_iff_ne.2 hb, beq_eq_false_iff_ne.2 hn,
    Bool.false_eq_true, ite_false]
  by_cases hm : Template.isMark c = true
  · obtain ⟨h1, h2⟩ := h hm
    rw [if_pos hm]
    split
    · exact absurd rfl h1
    · next d r' _ =>
      have hd : ¬ (d == c) = true := by
        rintro hd
        obtain rfl : d = c := by simpa using hd
        exact h2 r' rfl
      rw [if_neg hd]
    · rfl
  · rw [if_neg hm]

/-- A doubled mark before a brace stands for the two characters. -/
theorem piece_doubled (h : Template.isMark c = true) :
    piece start p c (c :: '{' :: r) = .ok (.text [c, '{'] false, ⟨[c, c, '{'], r⟩) := by
  obtain rfl | rfl : c = '$' ∨ c = '%' := by simpa [Template.isMark] using h
  · simp [piece, Template.isMark]
  · simp [piece, Template.isMark]

theorem literal_escapedChar (h : Unmarked c r) :
    literal start p (escapedChar c ++ r) = (literal start (p.after (escapedChar c)) r).map fun (more, j) =>
      (⟨c :: more.value, more.templated⟩, j.onto (escapedChar c)) := by
  by_cases hq : c = '"'
  · subst hq
    exact literal_of_text (piece_backslash rfl)
  by_cases hb : c = '\\'
  · subst hb
    exact literal_of_text (piece_backslash rfl)
  by_cases hn : c = '\n'
  · subst hn
    exact literal_of_text (piece_backslash rfl)
  · have he : escapedChar c = [c] := by simp [escapedChar, hq, hb, hn]
    rw [he]
    exact literal_of_text (piece_plain hq hb hn h)

/-- What stands before the closing quote starts with a brace only if the text does. -/
theorem head?_escaped (h : (escaped s ++ '"' :: rest).head? = some '{') : s.head? = some '{' := by
  have hc (c : Char) (u : List Char) (h : (escapedChar c ++ u).head? = some '{') : c = '{' := by
    unfold escapedChar at h
    split at h
    · simp at h
    split at h
    · simp at h
    · simpa using h
  cases s with
  | nil => simp [escaped] at h
  | cons c s =>
    cases s with
    | nil => simp [hc c _ h]
    | cons d s =>
      simp only [escaped] at h
      split at h
      · simpa using h
      · rw [List.append_assoc] at h
        simp [hc c _ h]

theorem escapedChar_mark {d : Char} {u v : List Char} (hm : Template.isMark c = true)
    (h : escapedChar d ++ u = c :: v) : d = c ∧ u = v := by
  have hc : c ≠ '\\' := Lexer.ne_of_class hm (by decide)
  unfold escapedChar at h
  split at h
  · exact absurd (List.cons.inj h).1.symm hc
  split at h
  · exact absurd (List.cons.inj h).1.symm hc
  · exact List.cons.inj h

theorem unmarked_escaped (h : ¬ (Template.isMark c && s.head? == some '{') = true) :
    Unmarked c (escaped s ++ '"' :: rest) := by
  intro hm
  have hs : s.head? ≠ some '{' := fun hs => h (by simp [hm, hs])
  refine ⟨fun hh => hs (head?_escaped hh), fun t ht => ?_⟩
  cases s with
  | nil =>
    obtain rfl : '"' = c := (List.cons.inj ht).1
    simp [Template.isMark] at hm
  | cons d s =>
    cases s with
    | nil =>
      obtain ⟨-, ht⟩ := escapedChar_mark hm ht
      simp at ht
    | cons e s =>
      rw [escaped] at ht
      split at ht
      · obtain ⟨rfl, hd, -⟩ : d = c ∧ d = '{' ∧ _ := by simpa using ht
        simp [hd, Template.isMark] at hm
      · next hne =>
        rw [List.append_assoc] at ht
        obtain ⟨rfl, htail⟩ := escapedChar_mark hm ht
        have hb : (escaped (e :: s) ++ '"' :: rest).head? = some '{' := by rw [htail, List.head?_cons]
        have he : (e :: s).head? = some '{' := head?_escaped hb
        obtain rfl : e = '{' := by simpa using he
        simp [hm] at hne

theorem literal_escaped (start p : Position) (s rest : List Char) :
    literal start p (escaped s ++ '"' :: rest) = .ok (⟨s, false⟩, ⟨escaped s ++ ['"'], rest⟩) := by
  fun_induction escaped s generalizing p with
  | case1 => exact literal_finish start p rest
  | case2 c =>
    have h : Unmarked c ('"' :: rest) := unmarked_escaped (s := []) (by simp)
    rw [literal_escapedChar h, literal_finish]
    rfl
  | case3 c d r hm ih =>
    obtain ⟨hc, hd⟩ : Template.isMark c = true ∧ d = '{' := by simpa using hm
    subst hd
    have hp : piece start p c (c :: '{' :: (escaped r ++ '"' :: rest)) = _ := piece_doubled hc
    rw [List.cons_append, List.cons_append, List.cons_append, literal_of_text hp, ih]
    rfl
  | case4 c d r hm ih =>
    rw [List.append_assoc, literal_escapedChar (unmarked_escaped hm), ih]
    simp [Except.map, Cut.onto]

end Escaped

end Quotation

/-- A text between quotes. -/
def quotedText (s : String) : List Char :=
  '"' :: (Quotation.escaped s.toList ++ ['"'])

/-- Between quotes every text reads as itself. -/
theorem Lexer.reads_quotedText (s : String) (rest : List Char) :
    Reads (quotedText s) [.string s false] rest := by
  refine reads_token (by decide) (by decide) fun p => ?_
  rw [List.append_assoc, List.singleton_append]
  simp [token, quotation, Quotation.literal_escaped, Except.map, Cut.onto]

end InfraAudit.Hcl
