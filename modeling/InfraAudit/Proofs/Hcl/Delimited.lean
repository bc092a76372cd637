import InfraAudit.Proofs.Hcl.Placement
import InfraAudit.Proofs.Hcl.Reading
import Mathlib.Data.List.Forall2

/-!
# InfraAudit.Proofs.Hcl.Delimited — lexemes with an end of their own

A string literal, a block comment and a heredoc say themselves where they end.  Where they stand, and what comes
after them, does not matter to them.

* `LineEnd`: texts that start, if at all, with a newline.
* `Skips`: the text of a template sequence, up to its closing brace.  `skips_of_skipNested`, `Skips.skipNested`: what is
  skipped is such a text, and every such text is skipped.
* `literal_before`, `blockComment?_before`: a string literal and a block comment before any text.
* `heredoc_before`: a heredoc before the end of a line.
-/

namespace InfraAudit.Hcl

open InfraAudit.Text

/-- The text is at its end or goes on with a newline. -/
def LineEnd (s : List Char) : Prop :=
  ∀ c ∈ s.head?, c = '\n'

section Lines

variable {s t : List Char}

theorem lineEnd_newline : LineEnd ('\n' :: s) := by
  rintro c ⟨⟩
  rfl

/-- What stands before `t` keeps the end of the line where it is. -/
theorem LineEnd.of_append {u t' : List Char} (h : LineEnd (u ++ t)) (ht' : u = [] → LineEnd t') :
    LineEnd (u ++ t') := by
  cases u with
  | nil => exact ht' rfl
  | cons c u => exact h

theorem newline_not_mem_takeWhile (s : List Char) : '\n' ∉ s.takeWhile (· != '\n') := fun hm => by
  have hmem := List.mem_takeWhile_imp hm
  simp at hmem

theorem lineEnd_dropWhile (s : List Char) : LineEnd (s.dropWhile (· != '\n')) := by
  intro c hc
  have h := List.head?_dropWhile_not (· != '\n') s
  rw [Option.mem_def.1 hc] at h
  simpa using h

end Lines

/-! ### String literals -/

namespace Quotation

/-- What is open inside a template sequence, wherever it starts: a sequence with so many braces of its own open, or a
string. -/
inductive Level
  | sequence (depth : Nat)
  | quotation

/-- The level of a frame. -/
def Frame.level : Frame → Level
  | .sequence _ depth => .sequence depth
  | .quotation _ => .quotation

/-- The character ends the level. -/
inductive Level.Ends : Level → Char → Prop
  | sequence : Ends (.sequence 0) '}'
  | quotation : Ends .quotation '"'

/-- The text reaches up to the end of a level and of those below it, innermost first. -/
inductive Skips : Level → List Level → List Char → Prop
  | finish {l : Level} {c : Char} (hc : l.Ends c) : Skips l [] [c]
  | leave {l l' : Level} {ls : List Level} {c : Char} {s : List Char} (hc : l.Ends c) (h : Skips l' ls s) :
      Skips l (l' :: ls) (c :: s)
  | quote {depth : Nat} {ls : List Level} {s : List Char} (h : Skips .quotation (.sequence depth :: ls) s) :
      Skips (.sequence depth) ls ('"' :: s)
  | brace {depth : Nat} {ls : List Level} {s : List Char} (h : Skips (.sequence (depth + 1)) ls s) :
      Skips (.sequence depth) ls ('{' :: s)
  | unbrace {depth : Nat} {ls : List Level} {s : List Char} (h : Skips (.sequence depth) ls s) :
      Skips (.sequence (depth + 1)) ls ('}' :: s)
  | inSequence {depth : Nat} {ls : List Level} {c : Char} {s : List Char} (hc : c ∉ ['"', '{', '}'])
      (h : Skips (.sequence depth) ls s) : Skips (.sequence depth) ls (c :: s)
  | escape {ls : List Level} {s : List Char} (d : Char) (h : Skips .quotation ls s) :
      Skips .quotation ls ('\\' :: d :: s)
  | mark {ls : List Level} {c : Char} {s : List Char} (hc : Template.isMark c = true)
      (h : Skips (.sequence 0) (.quotation :: ls) s) : Skips .quotation ls (c :: '{' :: s)
  | inQuotation {ls : List Level} {c : Char} {s : List Char} (hc : c ∉ ['\n', '"', '\\'])
      (hm : Template.isMark c = true → s.head? ≠ some '{') (h : Skips .quotation ls s) : Skips .quotation ls (c :: s)

@[simp] theorem Frame.level_sequence (p : Position) (depth : Nat) : (Frame.sequence p depth).level = .sequence depth :=
  rfl

@[simp] theorem Frame.level_quotation (p : Position) : (Frame.quotation p).level = .quotation := rfl

section Literals

variable {p q start : Position} {s r : List Char} {k : Cut} {l : Level} {ls : List Level}

theorem eq_ok_of_onto {x : Except Failure Cut} (h : Cut.onto s <$> x = .ok k) :
    ∃ j, x = .ok j ∧ k = j.onto s := by
  cases x with
  | error e => cases h
  | ok j => exact ⟨j, rfl, (Except.ok.inj h).symm⟩

theorem onto_append (j : Cut) (s r : List Char) : (j.onto s).taken ++ r = s ++ (j.taken ++ r) := by
  simp [Cut.onto]

theorem Skips.ne_nil (h : Skips l ls s) : s ≠ [] := by
  cases h <;> simp

/-- What is taken reaches up to the end of the frames. -/
theorem skips_of_skipNested {top : Frame} {below : List Frame} (h : skipNested p top below s = .ok k) :
    Skips top.level (below.map Frame.level) k.taken := by
  fun_induction skipNested p top below s generalizing k with
  | case1 => cases h
  | case2 p below c r _ start depth hc =>
    rename_i ih
    obtain ⟨j, hj, rfl⟩ := eq_ok_of_onto h
    obtain rfl : c = '"' := by simpa using hc
    exact .quote (ih hj)
  | case3 p below c r _ start depth _ hc =>
    rename_i ih
    obtain ⟨j, hj, rfl⟩ := eq_ok_of_onto h
    obtain rfl : c = '{' := by simpa using hc
    exact .brace (ih hj)
  | case4 p below c r _ start _ _ hc depth =>
    rename_i ih
    obtain ⟨j, hj, rfl⟩ := eq_ok_of_onto h
    obtain rfl : c = '}' := by simpa using hc
    exact .unbrace (ih hj)
  | case5 p c r start _ _ hc =>
    cases h
    obtain rfl : c = '}' := by simpa using hc
    exact .finish .sequence
  | case6 p c r _ start _ _ hc f fs =>
    rename_i ih
    obtain ⟨j, hj, rfl⟩ := eq_ok_of_onto h
    obtain rfl : c = '}' := by simpa using hc
    exact .leave .sequence (ih hj)
  | case7 p below c r _ start depth hq ho hc =>
    rename_i ih
    obtain ⟨j, hj, rfl⟩ := eq_ok_of_onto h
    exact .inSequence (by simp_all) (ih hj)
  | case8 => cases h
  | case9 p c r start _ hc =>
    cases h
    obtain rfl : c = '"' := by simpa using hc
    exact .finish .quotation
  | case10 p c r _ start _ hc f fs =>
    rename_i ih
    obtain ⟨j, hj, rfl⟩ := eq_ok_of_onto h
    obtain rfl : c = '"' := by simpa using hc
    exact .leave .quotation (ih hj)
  | case11 => cases h
  | case12 p below c _ start _ _ d r hc =>
    rename_i ih
    obtain ⟨j, hj, rfl⟩ := eq_ok_of_onto h
    obtain rfl : c = '\\' := by simpa using hc
    exact .escape d (ih hj)
  | case13 p below c _ start _ _ d r _ hc =>
    rename_i ih
    obtain ⟨j, hj, rfl⟩ := eq_ok_of_onto h
    obtain ⟨hm, rfl⟩ : Template.isMark c = true ∧ d = '{' := by simpa using hc
    exact .mark hm (ih hj)
  | case14 p below c _ start hl hq d r hb hc =>
    rename_i ih
    obtain ⟨j, hj, rfl⟩ := eq_ok_of_onto h
    refine .inQuotation (by simp_all) (fun hm hh => ?_) (ih hj)
    -- the character after `c` is looked at, and belongs to what is taken
    have hcut : j.taken ++ j.rest = d :: r := skipNested_of hj
    obtain ⟨w, hw⟩ : ∃ w, j.taken = '{' :: w := List.head?_eq_some_iff.1 hh
    rw [hw, List.cons_append] at hcut
    obtain rfl : '{' = d := (List.cons.inj hcut).1
    simp [hm] at hc

theorem onto_onto {x y : Except Failure Cut} (h : x = Cut.onto s <$> y) (t : List Char) :
    Cut.onto t <$> x = Cut.onto (t ++ s) <$> y := by
  rw [h]
  cases y with
  | error e => rfl
  | ok k => simp [Cut.onto, Functor.map, Except.map]

theorem Frame.eq_sequence {f : Frame} {depth : Nat} (h : f.level = .sequence depth) : ∃ p, f = .sequence p depth := by
  cases f with
  | sequence p d =>
    obtain rfl : d = depth := Level.sequence.inj h
    exact ⟨p, rfl⟩
  | quotation => cases h

theorem Frame.eq_quotation {f : Frame} (h : f.level = .quotation) : ∃ p, f = .quotation p := by
  cases f with
  | sequence => cases h
  | quotation p => exact ⟨p, rfl⟩

/-- Takes the text up to the end of `frames`, innermost first; nothing if there are none. -/
def skipFrames (p : Position) (frames : List Frame) (s : List Char) : Except Failure Cut :=
  match frames with
  | [] => .ok (.none s)
  | f :: fs => skipNested p f fs s

/-- A text that reaches up to the end of some frames is taken, wherever they start; then come the frames below. -/
theorem Skips.skipNested_append (h : Skips l ls s) {top : Frame} {inner : List Frame} (htop : top.level = l)
    (hinner : inner.map Frame.level = ls) (p : Position) (below : List Frame) (rest : List Char) :
    skipNested p top (inner ++ below) (s ++ rest) = Cut.onto s <$> skipFrames (p.after s) below rest := by
  induction h generalizing p top inner with
  | finish hc =>
    obtain rfl := List.map_eq_nil_iff.1 hinner
    cases hc with
    | sequence =>
      obtain ⟨_, rfl⟩ := Frame.eq_sequence htop
      cases below <;> rfl
    | quotation =>
      obtain ⟨_, rfl⟩ := Frame.eq_quotation htop
      cases below <;> cases rest <;> rfl
  | @leave l l' ls c s hc _ ih =>
    obtain ⟨f, fs, rfl, hf, hfs⟩ := List.map_eq_cons_iff.1 hinner
    have hn := onto_onto (ih hf hfs (p.next c)) [c]
    rw [Quotation.skipNested.eq_def]
    cases hc with
    | sequence =>
      obtain ⟨_, rfl⟩ := Frame.eq_sequence htop
      simpa using hn
    | quotation =>
      obtain ⟨_, rfl⟩ := Frame.eq_quotation htop
      simpa using hn
  | @quote depth ls _ _ ih =>
    obtain ⟨a, rfl⟩ := Frame.eq_sequence htop
    have hframes : (Frame.sequence a depth :: inner).map Frame.level = .sequence depth :: ls := by
      rw [List.map_cons, hinner, htop]
    have hn := onto_onto (ih (Frame.level_quotation p) hframes (p.next '"')) ['"']
    simpa [Quotation.skipNested] using hn
  | brace _ ih =>
    obtain ⟨a, rfl⟩ := Frame.eq_sequence htop
    have hn := onto_onto (ih (Frame.level_sequence a _) hinner (p.next '{')) ['{']
    simpa [Quotation.skipNested] using hn
  | unbrace _ ih =>
    obtain ⟨a, rfl⟩ := Frame.eq_sequence htop
    have hn := onto_onto (ih (Frame.level_sequence a _) hinner (p.next '}')) ['}']
    simpa [Quotation.skipNested] using hn
  | @inSequence _ _ c _ hc _ ih =>
    obtain ⟨a, rfl⟩ := Frame.eq_sequence htop
    have hn := onto_onto (ih htop hinner (p.next c)) [c]
    simp_all [Quotation.skipNested]
  | escape d _ ih =>
    obtain ⟨a, rfl⟩ := Frame.eq_quotation htop
    have hn := onto_onto (ih htop hinner ((p.next '\\').next d)) ['\\', d]
    simpa [Quotation.skipNested] using hn
  | @mark ls c _ hc _ ih =>
    obtain ⟨a, rfl⟩ := Frame.eq_quotation htop
    have hframes : (Frame.quotation a :: inner).map Frame.level = .quotation :: ls := by
      rw [List.map_cons, hinner, htop]
    have hn := onto_onto (ih (Frame.level_sequence p 0) hframes ((p.next c).next '{')) [c, '{']
    obtain rfl | rfl : c = '$' ∨ c = '%' := by simpa [Template.isMark] using hc
    · simpa [Quotation.skipNested, Template.isMark] using hn
    · simpa [Quotation.skipNested, Template.isMark] using hn
  | @inQuotation _ c s hc hm h ih =>
    obtain ⟨a, rfl⟩ := Frame.eq_quotation htop
    have hn := onto_onto (ih htop hinner (p.next c)) [c]
    obtain ⟨d, w, rfl⟩ := List.exists_cons_of_ne_nil h.ne_nil
    simp_all [Quotation.skipNested]

/-- A text that reaches up to the end of all frames is taken, wherever they start and whatever follows. -/
theorem Skips.skipNested (h : Skips l ls s) {top : Frame} {below : List Frame} (htop : top.level = l)
    (hbelow : below.map Frame.level = ls) (p : Position) (rest : List Char) :
    skipNested p top below (s ++ rest) = .ok ⟨s, rest⟩ := by
  have hn := h.skipNested_append htop hbelow p [] rest
  rw [List.append_nil] at hn
  rw [hn]
  simp [skipFrames, Cut.none, Cut.onto, Functor.map, Except.map]

theorem all_hex_of_codePoint {letter x : Char} {width : Nat} (h : codePoint p letter width s = .ok (x, k)) :
    ∀ d ∈ k.taken, isHexDigit d = true := by
  simp only [codePoint] at h
  split at h
  · cases h
  next hd =>
  split at h
  · cases h
  split at h <;> cases h
  simpa using fun h => hd (.inr h)

/-- Behind the backslash, an escape is a letter or a delimiter and then hexadecimal digits. -/
theorem escape_taken {x : Char} (h : escape p s = .ok (x, k)) :
    ∃ c ds, k.taken = c :: ds ∧ c ≠ '\n' ∧ ∀ d ∈ ds, isHexDigit d = true := by
  cases s with
  | nil => cases h
  | cons c r =>
    simp only [escape] at h
    split at h
    · next hs =>
      cases h
      refine ⟨c, [], rfl, ?_, by simp⟩
      rintro rfl
      cases hs
    · next width _ hw =>
      obtain ⟨⟨y, j⟩, hj, he⟩ := Document.eq_ok_of_map h
      cases he
      refine ⟨c, j.taken, rfl, ?_, all_hex_of_codePoint hj⟩
      rintro rfl
      cases hw
    · cases h

theorem codePoint_before {letter x : Char} {width : Nat} (h : codePoint p letter width s = .ok (x, k)) (q : Position)
    (rest : List Char) : codePoint q letter width (k.taken ++ rest) = .ok (x, ⟨k.taken, rest⟩) := by
  simp only [codePoint] at h
  split at h
  · cases h
  · next hd =>
    split at h
    · cases h
    · next hm =>
      split at h
      · cases h
      · next hc =>
        cases h
        have hl : (Cut.splitAt width s).taken.length = width := by
          by_contra hl
          exact hd (.inl hl)
        have hs : Cut.splitAt width ((Cut.splitAt width s).taken ++ rest) = ⟨(Cut.splitAt width s).taken, rest⟩ := by
          simp only [Cut.splitAt] at hl ⊢
          rw [List.take_left' hl, List.drop_left' hl]
        simp only [codePoint, hs, hd, hm, hc, ite_false]

theorem escape_before {x : Char} (h : escape p s = .ok (x, k)) (q : Position) (rest : List Char) :
    escape q (k.taken ++ rest) = .ok (x, ⟨k.taken, rest⟩) := by
  cases s with
  | nil => cases h
  | cons c r =>
    simp only [escape] at h
    split at h
    · next hs =>
      cases h
      simp [escape, hs]
    · next width hs hw =>
      obtain ⟨⟨y, j⟩, hj, he⟩ := Document.eq_ok_of_map h
      cases he
      have hn := codePoint_before hj q rest
      rw [onto_append, List.singleton_append]
      simp only [escape, hs, hw, hn]
      rfl
    · cases h

theorem piece_finish_inv {c : Char} (h : piece start p c r = .ok (.finish, k)) : c = '"' ∧ k = ⟨['"'], r⟩ := by
  have hcut : k.taken ++ k.rest = c :: r := (piece_of h).1
  have htaken : k.taken = ['"'] := Lexer.piece_finish h
  rw [htaken, List.singleton_append, List.cons.injEq] at hcut
  obtain ⟨rfl, rfl⟩ := hcut
  exact ⟨rfl, by rw [← htaken]⟩

/-- The pieces of a string literal that are text: an escape, a template sequence, a doubled mark before a brace, or a
character that stands for itself. -/
inductive TextPiece (p : Position) : Char → List Char → List Char → Bool → Cut → Prop
  | escape {r : List Char} {x : Char} {j : Cut} (h : escape p r = .ok (x, j)) :
      TextPiece p '\\' r [x] false (j.onto ['\\'])
  | template {c : Char} {r : List Char} {j : Cut} (hc : Template.isMark c = true)
      (h : skipNested ((p.next c).next '{') (.sequence p 0) [] r = .ok j) :
      TextPiece p c ('{' :: r) (c :: '{' :: j.taken) true (j.onto [c, '{'])
  | doubled {c : Char} {r : List Char} (hc : Template.isMark c = true) :
      TextPiece p c (c :: '{' :: r) [c, '{'] false ⟨[c, c, '{'], r⟩
  | plain {c : Char} {r : List Char} (hq : c ≠ '"') (hb : c ≠ '\\') (hn : c ≠ '\n') (h : Unmarked c r) :
      TextPiece p c r [c] false ⟨[c], r⟩

theorem piece_inv {c : Char} {value : List Char} {templated : Bool}
    (h : piece start p c r = .ok (.text value templated, k)) : TextPiece p c r value templated k := by
  unfold piece at h
  split at h
  · cases h
  next hn =>
  split at h
  · cases h
  next hq =>
  split at h
  · next hb =>
    obtain rfl : c = '\\' := by simpa using hb
    obtain ⟨⟨x, j⟩, hj, he⟩ := Document.eq_ok_of_map h
    cases he
    exact .escape hj
  next hb =>
  -- what stands for itself is a character that no earlier case is about
  have hplain (hu : Unmarked c r) : TextPiece p c r [c] false ⟨[c], r⟩ :=
    .plain (by simpa using hq) (by simpa using hb) (by simpa using hn) hu
  split at h
  · next hm =>
    split at h
    · obtain ⟨j, hj, he⟩ := Document.eq_ok_of_map h
      cases he
      exact .template hm hj
    · next d r' hd =>
      split at h
      · next hc =>
        obtain rfl : d = c := by simpa using hc
        cases h
        exact .doubled hm
      · next hc =>
        cases h
        refine hplain fun _ => ⟨fun hh => hd ?_, fun t ht => ?_⟩
        · simpa using hh
        · obtain rfl : d = c := (List.cons.inj ht).1
          simp at hc
    · next h1 h2 =>
      cases h
      refine hplain fun _ => ⟨fun hh => ?_, fun t ht => h2 c t ht⟩
      obtain ⟨t, rfl⟩ : ∃ t, r = '{' :: t := by
        cases r <;> simp_all
      exact h1 t rfl
  · next hm =>
    cases h
    exact hplain fun hc => absurd hc hm

theorem TextPiece.piece_eq {c : Char} {value : List Char} {templated : Bool} (h : TextPiece p c r value templated k)
    (start : Position) : piece start p c r = .ok (.text value templated, k) := by
  cases h with
  | escape h => simp [piece, h, Except.map]
  | @template _ r j hc h =>
    have hne : c ≠ '"' ∧ c ≠ '\\' ∧ c ≠ '\n' :=
      ⟨Lexer.ne_of_class hc (by decide), Lexer.ne_of_class hc (by decide), Lexer.ne_of_class hc (by decide)⟩
    simp [piece, hne, hc, h, Except.map]
  | doubled hc => exact piece_doubled hc
  | plain hq hb hn h => exact piece_plain hq hb hn h

/-- Whether a mark stands for itself is seen before the closing quote. -/
theorem Unmarked.before {c : Char} {w z : List Char} (h : Unmarked c (w ++ '"' :: z)) (rest : List Char) :
    Unmarked c (w ++ '"' :: rest) := by
  intro hm
  obtain ⟨h1, h2⟩ := h hm
  match w with
  | [] =>
    refine ⟨by simp, fun t ht => ?_⟩
    obtain rfl : '"' = c := (List.cons.inj ht).1
    simp [Template.isMark] at hm
  | [a] =>
    refine ⟨by simpa using h1, fun t ht => ?_⟩
    have : '"' = '{' := (List.cons.inj (List.cons.inj ht).2).1
    simp at this
  | a :: b :: w =>
    refine ⟨by simpa using h1, fun t ht => h2 (w ++ '"' :: z) ?_⟩
    simp only [List.cons_append, List.cons.injEq] at ht ⊢
    exact ⟨ht.1, ht.2.1, trivial⟩

/-- A piece of a literal is read the same when something else follows the closing quote. -/
theorem TextPiece.before {c : Char} {value w z : List Char} {templated : Bool}
    (h : TextPiece p c r value templated k) (hk : k.rest = w ++ '"' :: z) (q : Position) (rest : List Char) :
    ∃ v, k.taken = c :: v ∧ TextPiece q c (v ++ (w ++ '"' :: rest)) value templated ⟨k.taken, w ++ '"' :: rest⟩ := by
  cases h with
  | @escape _ x j h => exact ⟨j.taken, rfl, .escape (escape_before h q _)⟩
  | @template _ r j hc h =>
    have hj := skips_of_skipNested h
    have hb := hj.skipNested (Frame.level_sequence q 0) rfl ((q.next c).next '{') (w ++ '"' :: rest)
    exact ⟨'{' :: j.taken, rfl, .template hc hb⟩
  | doubled hc => exact ⟨[c, '{'], rfl, .doubled hc⟩
  | plain hq hb hn h =>
    simp only at hk
    subst hk
    exact ⟨[], rfl, .plain hq hb hn (h.before rest)⟩

/-- A string literal ends with its closing quote. -/
theorem literal_before {x : Contents} (h : literal start p s = .ok (x, k)) (start' q : Position) (rest : List Char) :
    literal start' q (k.taken ++ rest) = .ok (x, ⟨k.taken, rest⟩) := by
  fun_induction literal start p s generalizing x k q with
  | case1 => cases h
  | case2 => cases h
  | case3 p c r k hp =>
    cases h
    rw [Lexer.piece_finish hp]
    exact literal_finish start' q rest
  | case4 p c r value templated k hp ih =>
    obtain ⟨⟨more, j⟩, hj, he⟩ := Document.eq_ok_of_map h
    cases he
    obtain ⟨w, hw⟩ := Lexer.literal_ends hj
    simp only at hw
    have hkr : k.rest = w ++ '"' :: j.rest := by
      have := literal_of hj
      simp only [Cut.Of, hw] at this
      simpa using this.symm
    obtain ⟨v, hv, ht⟩ := (piece_inv hp).before hkr q rest
    have hn := ih hj (q.after k.taken)
    rw [hw, List.append_assoc, List.singleton_append] at hn
    rw [onto_append, hw, List.append_assoc, List.singleton_append, hv, List.cons_append,
      literal_of_text (ht.piece_eq start'), hn]
    simp [Except.map, Cut.onto, hw, hv]

/-- A string literal reads as one token, wherever it stands and whatever follows. -/
theorem reads_literal {x : Contents} (h : literal start p s = .ok (x, k)) (rest : List Char) :
    Lexer.Reads ('"' :: k.taken) [.string (String.ofList x.value) x.templated] rest := by
  refine Lexer.reads_token (by decide) (by decide) fun q => ?_
  simp [Lexer.token, Lexer.quotation, literal_before h q (q.next '"') rest, Except.map, Cut.onto]

end Literals

end Quotation

/-! ### Heredocs -/

namespace Heredoc

section Heredocs

variable {s m : List Char} {k : Cut} {h : Header}

theorem headerEnd?_before (hk : headerEnd? s = some k) (rest : List Char) :
    headerEnd? (k.taken ++ rest) = some ⟨k.taken, rest⟩ := by
  have hi : ∀ c ∈ (Cut.span isIndent s).taken, isIndent c = true := fun c hc => List.mem_takeWhile_imp hc
  simp only [headerEnd?] at hk
  split at hk
  · next r hr =>
    cases hk
    have hs : Cut.span isIndent ((Cut.span isIndent s).taken ++ ('\n' :: rest)) =
        ⟨(Cut.span isIndent s).taken, '\n' :: rest⟩ := Lexer.span_append hi (by simp [isIndent])
    simp [headerEnd?, hs]
  · next r hr =>
    cases hk
    have hs : Cut.span isIndent ((Cut.span isIndent s).taken ++ ('\r' :: '\n' :: rest)) =
        ⟨(Cut.span isIndent s).taken, '\r' :: '\n' :: rest⟩ := Lexer.span_append hi (by simp [isIndent])
    simp [headerEnd?, hs]
  · cases hk

theorem headerEnd?_taken_ne (hk : headerEnd? s = some k) : k.taken ≠ [] := by
  simp only [headerEnd?] at hk
  split at hk <;> cases hk <;> simp

theorem marker?_before {indented : Bool} (hk : marker? indented s = some (h, k)) (rest : List Char) :
    h.marker ≠ [] ∧ (∀ c ∈ s.head?, c ≠ '-') ∧ k.taken.head? = s.head? ∧
      marker? indented (k.taken ++ rest) = some (h, ⟨k.taken, rest⟩) := by
  cases s with
  | nil => cases hk
  | cons c r =>
    simp only [marker?] at hk
    split at hk
    · next hc =>
      obtain ⟨e, he, hx⟩ := Option.map_eq_some_iff.1 hk
      cases hx
      have hm : ∀ d ∈ (Cut.span isMarkerPart r).taken, isMarkerPart d = true := fun d hd => List.mem_takeWhile_imp hd
      -- what ends the marker is the first character of the end of the line
      have hd : ∀ d ∈ (e.taken ++ rest).head?, isMarkerPart d = false := by
        obtain ⟨a, w, hw⟩ := List.exists_cons_of_ne_nil (headerEnd?_taken_ne he)
        have hr : a :: (w ++ e.rest) = r.dropWhile isMarkerPart := by
          rw [← List.cons_append, ← hw]
          exact headerEnd?_of he
        rw [hw]
        rintro d ⟨⟩
        have := List.head_dropWhile_not (l := r) (p := isMarkerPart) (by simp [← hr])
        simpa [← hr] using this
      have hs : Cut.span isMarkerPart ((Cut.span isMarkerPart r).taken ++ (e.taken ++ rest)) =
          ⟨(Cut.span isMarkerPart r).taken, e.taken ++ rest⟩ := Lexer.span_append hm hd
      refine ⟨List.cons_ne_nil _ _, ?_, rfl, ?_⟩
      · rintro d ⟨⟩
        exact Lexer.ne_of_class hc (by decide)
      · simp [Cut.onto, marker?, hc, hs, headerEnd?_before he rest]
    · cases hk

/-- The opening line of a heredoc ends with its newline. -/
theorem header?_before (hk : header? s = some (h, k)) (rest : List Char) :
    h.marker ≠ [] ∧ header? (k.taken ++ rest) = some (h, ⟨k.taken, rest⟩) := by
  unfold header? at hk
  split at hk
  · obtain ⟨⟨h', j⟩, hj, he⟩ := Option.map_eq_some_iff.1 hk
    cases he
    obtain ⟨hm, -, -, hn⟩ := marker?_before hj rest
    refine ⟨hm, ?_⟩
    simp only [Cut.onto, List.cons_append, List.nil_append, header?, hn, Option.map_some]
  · obtain ⟨hm, hc, ht, hn⟩ := marker?_before hk rest
    refine ⟨hm, ?_⟩
    unfold header?
    split
    · next r hr =>
      -- the marker does not start with a hyphen
      cases hs : k.taken with
      | nil =>
        rw [hs, List.nil_append] at hn
        cases s with
        | nil => cases hk
        | cons c s => simp [hs] at ht
      | cons d w =>
        rw [hs] at ht hr
        exact absurd (List.cons.inj hr).1 (hc d ht.symm)
    · exact hn

/-- The body of a heredoc ends with the line of its marker. -/
theorem body?_before {lines : List (List Char)} (hk : body? m s = some (lines, k)) (hm : m ≠ []) {rest : List Char}
    (hr : LineEnd rest) : body? m (k.taken ++ rest) = some (lines, ⟨k.taken, rest⟩) := by
  have hnl (l : List Char) : ∀ c ∈ l.takeWhile (· != '\n'), (c != '\n') = true := by
    intro c hc
    exact List.mem_takeWhile_imp (p := (· != '\n')) hc
  fun_induction body? m s generalizing lines k with
  | case1 => cases hk
  | case2 s hs line =>
    rename_i ht
    cases hk
    have hne : line ≠ [] := by
      intro he
      rw [he] at ht
      exact hm ht.symm
    have hsp : Cut.span (· != '\n') (line ++ rest) = ⟨line, rest⟩ :=
      Lexer.span_append (hnl s) fun c hc => by simp [hr c hc]
    have htw : (line ++ rest).takeWhile (· != '\n') = line := (Cut.mk.inj hsp).1
    have hne' : line ++ rest ≠ [] := by simp [hne]
    show body? m (line ++ rest) = some ([], ⟨line, rest⟩)
    rw [body?]
    simp only [hne', ite_false, htw, ht, ite_true, hsp]
  | case3 => cases hk
  | case4 s hs line ht =>
    rename_i c r hd ih
    obtain ⟨⟨more, j⟩, hj, he⟩ := Option.map_eq_some_iff.1 hk
    cases he
    have hn := ih hj
    have hsp : Cut.span (· != '\n') (line ++ '\n' :: (j.taken ++ rest)) = ⟨line, '\n' :: (j.taken ++ rest)⟩ :=
      Lexer.span_append (hnl s) (by simp)
    obtain ⟨htw, hdw⟩ := Cut.mk.inj hsp
    have hne : line ++ '\n' :: (j.taken ++ rest) ≠ [] := by simp
    have ha : (j.onto (line ++ ['\n'])).taken ++ rest = line ++ '\n' :: (j.taken ++ rest) := by simp [Cut.onto]
    rw [ha, body?]
    simp only [hne, ite_false, htw, ht]
    split
    · next h' =>
      rw [hdw] at h'
      cases h'
    · next h' =>
      rw [hdw] at h'
      cases h'
      rw [hn]
      rfl

theorem body?_rest {lines : List (List Char)} (h : body? m s = some (lines, k)) : LineEnd k.rest := by
  fun_induction body? m s generalizing lines k with
  | case1 => cases h
  | case2 s =>
    cases h
    exact lineEnd_dropWhile s
  | case3 => cases h
  | case4 s =>
    rename_i ih
    obtain ⟨⟨more, j⟩, hj, he⟩ := Option.map_eq_some_iff.1 h
    cases he
    have hr : LineEnd j.rest := ih hj
    exact hr

end Heredocs

end Heredoc

/-! ### Tokens and comments -/

/-- Whether a token is a heredoc. -/
def Token.isHeredoc : Token → Bool
  | .heredoc _ _ => true
  | _ => false

namespace Lexer

section Delimiters

variable {p : Position}

theorem blockComment?_taken_ne {s : List Char} {k : Cut} (h : blockComment? s = some k) : k.taken ≠ [] := by
  unfold blockComment? at h
  split at h
  · cases h
    exact List.cons_ne_nil _ _
  · obtain ⟨j, -, rfl⟩ := Option.map_eq_some_iff.1 h
    exact List.cons_ne_nil _ _
  · cases h

/-- A comment ends with its closing delimiter. -/
theorem blockComment?_before {s : List Char} {k : Cut} (h : blockComment? s = some k) (rest : List Char) :
    blockComment? (k.taken ++ rest) = some ⟨k.taken, rest⟩ := by
  fun_induction blockComment? s generalizing k with
  | case1 r =>
    cases h
    rfl
  | case2 c r hc ih =>
    obtain ⟨j, hj, rfl⟩ := Option.map_eq_some_iff.1 h
    have ht : (j.onto [c]).taken ++ rest = c :: (j.taken ++ rest) := by simp [Cut.onto]
    rw [ht, blockComment?]
    · rw [ih hj]
      rfl
    · -- otherwise the comment would have ended here before
      rintro w rfl hw
      obtain ⟨d, z, hz⟩ := List.exists_cons_of_ne_nil (blockComment?_taken_ne hj)
      have hr : d :: (z ++ j.rest) = r := by
        rw [← List.cons_append, ← hz]
        exact blockComment?_of hj
      rw [hz, List.cons_append] at hw
      rw [(List.cons.inj hw).1] at hr
      exact hc _ rfl hr.symm
  | case3 => cases h

/-- A heredoc is read the same before any end of a line. -/
theorem heredoc_before {tok : Token} {r : List Char} {k : Cut} (h : heredoc p r = .ok (tok, k)) :
    LineEnd k.rest ∧ tok.isHeredoc = true ∧ ∃ w, k.taken = '<' :: '<' :: w ∧
      ∀ q rest, LineEnd rest → heredoc q (w ++ rest) = .ok (tok, ⟨k.taken, rest⟩) := by
  unfold heredoc at h
  split at h
  · cases h
  · next hd j hj =>
    split at h
    · cases h
    · next lines i hi =>
      rcases hv : Heredoc.value hd lines with ⟨value, templated⟩
      rw [hv] at h
      cases h
      have hr : LineEnd i.rest := Heredoc.body?_rest hi
      refine ⟨hr, rfl, j.taken ++ i.taken, by simp [Cut.onto], fun q rest hrest => ?_⟩
      obtain ⟨hm, hn⟩ := Heredoc.header?_before hj (i.taken ++ rest)
      have hb := Heredoc.body?_before hi hm hrest
      rw [List.append_assoc]
      simp [heredoc, hn, hb, hv, Cut.onto]

end Delimiters

end Lexer

end InfraAudit.Hcl
