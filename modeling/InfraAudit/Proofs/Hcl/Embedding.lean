import InfraAudit.Proofs.Hcl.Delimited

/-!
# InfraAudit.Proofs.Hcl.Embedding — string literals in template sequences

A string literal is read piece by piece, but inside a template sequence it is only skipped.  The scanner that skips it
knows escapes and template sequences and no doubled marks: where the literal has a doubled mark before a brace, a
template sequence starts for it.

* `doubled?`: what stands behind the first doubled mark of a literal.
* `TextPiece.skipNested_eq`: the other pieces of a literal are skipped as they are read.
* `literal_embedded`: when a literal is skipped up to its closing quote; a template sequence with it is then one token.
-/

namespace InfraAudit.Hcl.Quotation

open InfraAudit.Text

/-- What stands behind the first doubled mark before a brace among the pieces of a literal, from the position `p` on. -/
def doubled? (start p : Position) : List Char → Option (List Char)
  | [] => none
  | c :: r =>
    if Template.isMark c = true ∧ [c, '{'] <+: r then some (r.drop 2)
    else match _h : piece start p c r with
      | .error _ => none
      | .ok (.finish, _) => none
      | .ok (.text _ _, k) => doubled? start (p.after k.taken) k.rest
termination_by s => s.length
decreasing_by exact Nat.lt_succ_of_le (piece_rest_le _h)

/-- A template sequence with a string literal in it: `quoted` is the literal from behind its opening quote on. -/
def embedded (before quoted behind : List Char) : List Char :=
  '$' :: '{' :: (before ++ '"' :: (quoted ++ (behind ++ ['}'])))

section Skipping

variable {start p q a : Position} {c : Char} {r s t u value : List Char} {templated : Bool} {k : Cut}
  {below : List Frame}

theorem doubled?_doubled (hc : Template.isMark c = true) : doubled? start p (c :: c :: '{' :: r) = some r := by
  rw [doubled?, if_pos ⟨hc, List.prefix_append [c, '{'] r⟩]
  rfl

theorem doubled?_of_text (hd : ¬ (Template.isMark c = true ∧ [c, '{'] <+: r))
    (h : piece start p c r = .ok (.text value templated, k)) :
    doubled? start p (c :: r) = doubled? start (p.after k.taken) k.rest := by
  rw [doubled?, if_neg hd]
  split <;> simp_all

theorem doubled?_finish (start p : Position) (r : List Char) : doubled? start p ('"' :: r) = none := by
  have h : piece start p '"' r = .ok (.finish, ⟨['"'], r⟩) := by simp [piece]
  rw [doubled?, if_neg fun hd => absurd hd.1 (by decide)]
  split <;> simp_all

/-! ### Single characters -/

theorem onto_nil (x : Except Failure Cut) : Cut.onto [] <$> x = x := by
  cases x <;> rfl

theorem onto_eq_ok_iff {x : Except Failure Cut} : Cut.onto s <$> x = .ok (k.onto s) ↔ x = .ok k := by
  refine ⟨fun h => ?_, fun h => by rw [h]; rfl⟩
  obtain ⟨j, hj, he⟩ := eq_ok_of_onto h
  obtain ⟨htaken, hrest⟩ := Cut.mk.inj he
  rw [hj, show k = j by cases k; cases j; simp_all]

theorem skipNested_inQuotation (hc : c ∉ ['\n', '"', '\\']) (hm : Template.isMark c = true → r.head? ≠ some '{') :
    skipNested q (.quotation a) below (c :: r) = Cut.onto [c] <$> skipNested (q.next c) (.quotation a) below r := by
  cases r with
  | nil => simp_all [skipNested, Frame.unterminated]
  | cons d r => simp_all [skipNested]

theorem skipNested_inSequence {depth : Nat} (hc : c ∉ ['"', '{', '}']) :
    skipNested q (.sequence a depth) below (c :: r) =
      Cut.onto [c] <$> skipNested (q.next c) (.sequence a depth) below r := by
  simp_all [skipNested]

theorem skipNested_mark (hc : Template.isMark c = true) :
    skipNested q (.quotation a) below (c :: '{' :: r) =
      Cut.onto [c, '{'] <$> skipNested ((q.next c).next '{') (.sequence q 0) (.quotation a :: below) r := by
  obtain rfl | rfl : c = '$' ∨ c = '%' := by simpa [Template.isMark] using hc
  · simp [skipNested, Template.isMark]
  · simp [skipNested, Template.isMark]

theorem skipNested_hex (hu : ∀ d ∈ u, isHexDigit d = true) :
    skipNested q (.quotation a) below (u ++ t) =
      Cut.onto u <$> skipNested (q.after u) (.quotation a) below t := by
  induction u generalizing q with
  | nil => exact (onto_nil _).symm
  | cons d u ih =>
    rw [List.forall_mem_cons] at hu
    have hne (e : Char) (he : isHexDigit e = false) : d ≠ e := Lexer.ne_of_class hu.1 he
    have hd : d ∉ ['\n', '"', '\\'] := by
      simp [hne '\n' (by decide), hne '"' (by decide), hne '\\' (by decide)]
    have hm : ¬ Template.isMark d = true := by
      simp [Template.isMark, hne '$' (by decide), hne '%' (by decide)]
    rw [List.cons_append, skipNested_inQuotation hd fun h => absurd h hm]
    exact onto_onto (ih hu.2) [d]

theorem skipNested_outside {depth : Nat} (hu : ∀ c ∈ u, c ∉ ['"', '{', '}']) :
    skipNested q (.sequence a depth) below (u ++ t) =
      Cut.onto u <$> skipNested (q.after u) (.sequence a depth) below t := by
  induction u generalizing q with
  | nil => exact (onto_nil _).symm
  | cons d u ih =>
    rw [List.forall_mem_cons] at hu
    rw [List.cons_append, skipNested_inSequence hu.1]
    exact onto_onto (ih hu.2) [d]

/-! ### Pieces -/

/-- A piece of a literal, but for a doubled mark, is skipped as it is read. -/
theorem TextPiece.skipNested_eq (h : TextPiece p c r value templated k)
    (hd : ¬ (Template.isMark c = true ∧ [c, '{'] <+: r)) (q a : Position) (below : List Frame) :
    skipNested q (.quotation a) below (c :: r) =
      Cut.onto k.taken <$> skipNested (q.after k.taken) (.quotation a) below k.rest := by
  cases h with
  | @escape _ x j h =>
    obtain ⟨d, ds, hj, -, hhex⟩ := escape_taken h
    have hcut : j.taken ++ j.rest = r := escape_of h
    have hstep : skipNested q (.quotation a) below ('\\' :: d :: (ds ++ j.rest)) =
        Cut.onto ['\\', d] <$> skipNested ((q.next '\\').next d) (.quotation a) below (ds ++ j.rest) := by
      simp [skipNested]
    rw [← hcut, hj, List.cons_append, hstep]
    simpa [Cut.onto, hj] using onto_onto (skipNested_hex hhex) ['\\', d]
  | @template _ r j hc h =>
    have hcut : j.taken ++ j.rest = r := skipNested_of h
    have hn := (skips_of_skipNested h).skipNested_append (Frame.level_sequence q 0) rfl ((q.next c).next '{')
      (.quotation a :: below) j.rest
    rw [hcut] at hn
    rw [skipNested_mark hc]
    exact onto_onto hn [c, '{']
  | @doubled _ r hc => exact absurd ⟨hc, List.prefix_append [c, '{'] r⟩ hd
  | plain hq hb hn h => exact skipNested_inQuotation (by simp [hq, hb, hn]) fun hm => (h hm).1

/-- A doubled mark before a brace is skipped up to the second mark, where a template sequence starts. -/
theorem skipNested_doubled (hc : Template.isMark c = true) (q a : Position) (below : List Frame) :
    skipNested q (.quotation a) below (c :: c :: '{' :: r) =
      Cut.onto [c, c, '{'] <$>
        skipNested (((q.next c).next c).next '{') (.sequence (q.next c) 0) (.quotation a :: below) r := by
  have hne (d : Char) (hd : Template.isMark d = false) : c ≠ d := Lexer.ne_of_class hc hd
  have hinside : c ∉ ['\n', '"', '\\'] := by
    simp [hne '\n' (by decide), hne '"' (by decide), hne '\\' (by decide)]
  have hfirst : skipNested q (.quotation a) below (c :: c :: '{' :: r) =
      Cut.onto [c] <$> skipNested (q.next c) (.quotation a) below (c :: '{' :: r) :=
    skipNested_inQuotation hinside fun _ h => hne '{' (by decide) (Option.some.inj h)
  rw [hfirst, skipNested_mark hc]
  exact onto_onto rfl [c]

/-! ### Whole literals -/

theorem skipped_iff {x : Contents} (h : literal start p s = .ok (x, k)) (q a : Position) :
    skipNested q (.quotation a) [] s = .ok k ↔
      ∀ v ∈ doubled? start p s, ∃ w, Skips (.sequence 0) [.quotation] w ∧ v = w ++ k.rest := by
  fun_induction literal start p s generalizing x k q with
  | case1 => cases h
  | case2 => cases h
  | case3 p c r j hp =>
    cases h
    obtain ⟨rfl, rfl⟩ := piece_finish_inv hp
    have hskip := (Skips.finish Level.Ends.quotation).skipNested (Frame.level_quotation a) List.map_nil q r
    rw [doubled?_finish]
    exact ⟨fun _ _ hv => absurd hv (Option.not_mem_none _), fun _ => hskip⟩
  | case4 p c r value templated j hp ih =>
    obtain ⟨⟨more, i⟩, hi, he⟩ := Document.eq_ok_of_map h
    cases he
    by_cases hd : Template.isMark c = true ∧ [c, '{'] <+: r
    · obtain ⟨hc, t, rfl⟩ := hd
      rw [List.cons_append, List.singleton_append, piece_doubled hc] at hp
      cases hp
      have hcut : i.taken ++ i.rest = t := literal_of hi
      rw [List.cons_append, List.singleton_append, doubled?_doubled hc, skipNested_doubled hc, onto_eq_ok_iff]
      constructor
      · rintro hskip v ⟨⟩
        exact ⟨i.taken, skips_of_skipNested hskip, hcut.symm⟩
      · intro hall
        obtain ⟨w, hw, hv⟩ := hall t rfl
        obtain rfl : i.taken = w := List.append_cancel_right (hcut.trans hv)
        rw [hv]
        exact hw.skipNested (Frame.level_sequence _ 0) rfl _ i.rest
    · rw [doubled?_of_text hd hp, (piece_inv hp).skipNested_eq hd, onto_eq_ok_iff]
      exact ih hi _

/-- A template sequence with a literal that is skipped up to its closing quote ends at its own brace. -/
theorem skipNested_embedded {before quoted behind : List Char} (hb : ∀ c ∈ before, c ∉ ['"', '{', '}'])
    (hb' : ∀ c ∈ behind, c ∉ ['"', '{', '}']) (h : Skips .quotation [] quoted) (q a : Position) (rest : List Char) :
    skipNested q (.sequence a 0) [] (before ++ '"' :: (quoted ++ (behind ++ '}' :: rest))) =
      .ok ⟨before ++ '"' :: (quoted ++ (behind ++ ['}'])), rest⟩ := by
  have hclose (q : Position) : skipNested q (.sequence a 0) [] ('}' :: rest) = .ok ⟨['}'], rest⟩ := by
    simp [skipNested]
  have hopen (q : Position) (t : List Char) : skipNested q (.sequence a 0) [] ('"' :: t) =
      Cut.onto ['"'] <$> skipNested (q.next '"') (.quotation q) [.sequence a 0] t := by
    simp [skipNested]
  have hquoted (q b : Position) : skipNested q (.quotation b) [.sequence a 0] (quoted ++ (behind ++ '}' :: rest)) =
      Cut.onto quoted <$> skipNested (q.after quoted) (.sequence a 0) [] (behind ++ '}' :: rest) :=
    h.skipNested_append (Frame.level_quotation b) List.map_nil q [.sequence a 0] _
  rw [skipNested_outside hb, hopen, hquoted, skipNested_outside hb', hclose]
  rfl

/-- A template sequence with a literal that is skipped up to its closing quote reads, between quotes, as one string. -/
theorem reads_embedded {before quoted behind : List Char} (hb : ∀ c ∈ before ++ behind, c ∉ ['"', '{', '}'])
    (h : Skips .quotation [] quoted) (rest : List Char) :
    Lexer.Reads ('"' :: (embedded before quoted behind ++ ['"']))
      [.string (String.ofList (embedded before quoted behind)) true] rest := by
  rw [List.forall_mem_append] at hb
  have hpiece : TextPiece .start '$' ('{' :: (before ++ '"' :: (quoted ++ (behind ++ '}' :: ['"']))))
      (embedded before quoted behind) true ⟨embedded before quoted behind, ['"']⟩ :=
    .template (by decide) (skipNested_embedded hb.1 hb.2 h _ _ ['"'])
  have htext : embedded before quoted behind ++ ['"'] =
      '$' :: '{' :: (before ++ '"' :: (quoted ++ (behind ++ '}' :: ['"']))) := by simp [embedded]
  have hliteral : literal .start .start (embedded before quoted behind ++ ['"']) =
      .ok (⟨embedded before quoted behind, true⟩, ⟨embedded before quoted behind ++ ['"'], []⟩) := by
    rw [htext, literal_of_text (hpiece.piece_eq _), literal_finish, ← htext]
    simp [Except.map, Cut.onto]
  exact reads_literal hliteral rest

/-- A string literal without a doubled mark before a brace is skipped up to its closing quote.  Another one is so if and
only if, behind the first such mark, the text up to that quote reads as the rest of a template sequence and then of a
literal.  Where a literal is skipped up to its closing quote, a template sequence with it, between texts without quotes
and braces, makes one string with a template sequence. -/
theorem literal_embedded {x : Contents} (h : literal start p s = .ok (x, k)) :
    (doubled? start p s = none → ∀ q a, skipNested q (.quotation a) [] s = .ok k) ∧
    (∀ v, doubled? start p s = some v → ∀ q a,
      (skipNested q (.quotation a) [] s = .ok k ↔ ∃ w, Skips (.sequence 0) [.quotation] w ∧ v = w ++ k.rest)) ∧
    (∀ q a, skipNested q (.quotation a) [] s = .ok k →
      ∀ before behind : List Char, (∀ c ∈ before ++ behind, c ∉ ['"', '{', '}']) →
        ∀ rest, Lexer.Reads ('"' :: (embedded before k.taken behind ++ ['"']))
          [.string (String.ofList (embedded before k.taken behind)) true] rest) := by
  refine ⟨fun hnone q a => ?_, fun v hv q a => ?_, fun q a hskip before behind hb rest => ?_⟩
  · rw [skipped_iff h, hnone]
    exact fun _ hv => absurd hv (Option.not_mem_none _)
  · rw [skipped_iff h, hv]
    simp only [Option.mem_def, Option.some.injEq, forall_eq']
  · exact reads_embedded hb (skips_of_skipNested hskip) rest

/-- A literal with escapes, a template sequence with a brace between quotes, and a doubled mark whose brace is
closed. -/
theorem literal_embedded_closed :
    ∃ (s : List Char) (x : Contents) (k : Cut), s = "a\\\"\\u0022$\x7bg(\"\x7d\")\x7d$$\x7bb\x7d\" , c".toList ∧
      literal .start .start s = .ok (x, k) ∧ k.rest = " , c".toList ∧
      doubled? .start .start s = some "b\x7d\" , c".toList ∧ skipNested .start (.quotation .start) [] s = .ok k ∧
      ∃ y, lex (String.ofList ('"' :: (embedded ['f', '('] k.taken [')'] ++ ['"']))) = .ok y ∧
        y.tokens.map PlacedToken.token =
          [.string "$\x7bf(\"a\\\"\\u0022$\x7bg(\"\x7d\")\x7d$$\x7bb\x7d\")\x7d" true] := by
  obtain ⟨s, hs⟩ : ∃ s, s = "a\\\"\\u0022$\x7bg(\"\x7d\")\x7d$$\x7bb\x7d\" , c".toList := ⟨_, rfl⟩
  have hcut : (literal .start .start s).map (·.2) =
      .ok ⟨"a\\\"\\u0022$\x7bg(\"\x7d\")\x7d$$\x7bb\x7d\"".toList, " , c".toList⟩ := by
    rw [hs]
    decide +kernel
  obtain ⟨⟨x, k⟩, hx, rfl⟩ := Document.eq_ok_of_map hcut
  have hdoubled : doubled? .start .start s = some "b\x7d\" , c".toList := by
    rw [hs]
    decide +kernel
  have hsequence : Skips (.sequence 0) [.quotation] "b\x7d\"".toList :=
    .inSequence (by decide) (.leave .sequence (.finish .quotation))
  obtain ⟨-, hiff, hreads⟩ := literal_embedded hx
  have hskip := (hiff _ hdoubled .start .start).2 ⟨"b\x7d\"".toList, hsequence, by decide⟩
  obtain ⟨y, hy, htokens, -⟩ := (hreads _ _ hskip ['f', '('] [')'] (by simp) []).lex_ofList
  refine ⟨s, x, _, hs, hx, rfl, hdoubled, hskip, y, hy, ?_⟩
  rw [htokens]
  decide +kernel

/-- A literal with nothing but a doubled mark before a brace: inside a template sequence it has no end. -/
theorem literal_embedded_open :
    ∃ (s : List Char) (x : Contents) (k : Cut), s = "$$\x7b\"".toList ∧ literal .start .start s = .ok (x, k) ∧
      k.rest = [] ∧ skipNested .start (.quotation .start) [] s ≠ .ok k ∧
      lex (String.ofList ('"' :: (embedded ['f', '('] k.taken [')'] ++ ['"']))) =
        .error (.badSyntax ⟨1, 8⟩ .unterminatedTemplate) := by
  have hliteral : literal .start .start "$$\x7b\"".toList = .ok (⟨['$', '{'], false⟩, ⟨"$$\x7b\"".toList, []⟩) := by
    rw [show "$$\x7b\"".toList = '$' :: '$' :: '{' :: ['"'] from rfl, literal_of_text (piece_doubled (by decide)),
      literal_finish]
    rfl
  exact ⟨_, _, _, rfl, hliteral, rfl, by decide +kernel, by decide +kernel⟩

end Skipping

end InfraAudit.Hcl.Quotation
