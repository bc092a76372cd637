import InfraAudit.Proofs.Hcl.Faults

/-!
# InfraAudit.Proofs.Hcl.Location — where the faults of a file are

Every fault has one place of the text: the line and the column are those of one offset.

* `Along`: the positions that a text runs through.  Each scanner moves along them, so that all of the lexer's faults
  are there.
* `Failure.In`: a fault with its place in a set of positions.  `in_of_lexemes`, `in_of_run`: the faults of the lexer are
  on the way through the text, those of the reader where a token starts or where the text ends.
* `fault_position`: a fault of a text is at one of its offsets, and the message names the file and that place.
* `fault_position_readAll`: among files read together, the one that a fault is said to be in is the one that has it.
-/

namespace InfraAudit.Hcl

open InfraAudit.Text

/-- A fault with a place has it in the set `P`. -/
def Failure.In (P : Position → Prop) (e : Failure) : Prop :=
  ∀ place cause, e = .badSyntax place cause → P place

/-- The set `P` has all positions on the way from `p` through the text `s`, its end included. -/
def Along (P : Position → Prop) (p : Position) (s : List Char) : Prop :=
  ∀ u, u <+: s → P (p.after u)

section Positions

variable {P : Position → Prop} {p : Position} {c : Char} {s u : List Char} {k : Cut} {cause : SyntaxCause}

theorem in_badSyntax (h : P p) : (Failure.badSyntax p cause).In P := by
  rintro _ _ ⟨⟩
  exact h

theorem Along.here (h : Along P p s) : P p :=
  h [] List.nil_prefix

theorem Along.after (h : Along P p (u ++ s)) : Along P (p.after u) s := by
  intro v hv
  rw [← Position.after_append]
  exact h _ ((List.prefix_append_right_inj u).2 hv)

theorem Along.next (h : Along P p (c :: s)) : Along P (p.next c) s :=
  h.after (u := [c])

theorem Along.rest (h : Along P p s) (hk : Cut.Of s k) : Along P (p.after k.taken) k.rest := by
  have hk' : k.taken ++ k.rest = s := hk
  exact (hk' ▸ h).after

/-- The positions of the offsets of a text are those on the way through it. -/
theorem along_offsets (s : List Char) : Along (fun q => ∃ n ≤ s.length, q = .ofOffset s n) .start s := by
  intro u hu
  refine ⟨u.length, hu.length_le, ?_⟩
  rw [← Position.start_after_take, ← List.prefix_iff_eq_take.1 hu]

end Positions

/-! ### Faults of the lexer -/

namespace Quotation

/-- Where a frame starts. -/
def Frame.start : Frame → Position
  | .sequence start _ => start
  | .quotation start => start

section Literals

variable {P : Position → Prop} {start p : Position} {c : Char} {s r : List Char} {e : Failure}

/-- Nested text has its faults on the way through it, or where a frame starts that is open. -/
theorem in_of_skipNested {top : Frame} {below : List Frame} (hp : Along P p s) (htop : P top.start)
    (hbelow : ∀ f ∈ below, P f.start) (h : skipNested p top below s = .error e) : e.In P := by
  fun_induction skipNested p top below s
  case case1 top _ =>
    cases h
    cases top <;> exact in_badSyntax htop
  case case5 | case9 => cases h
  case case8 | case11 =>
    cases h
    exact in_badSyntax htop
  -- the frames stay, or the innermost one counts its braces
  case case3 ih | case4 ih | case7 ih | case14 ih => exact ih hp.next htop hbelow (eq_error_of_onto h)
  case case12 ih => exact ih hp.next.next htop hbelow (eq_error_of_onto h)
  -- a frame starts here
  case case2 ih => exact ih hp.next hp.here (List.forall_mem_cons.2 ⟨htop, hbelow⟩) (eq_error_of_onto h)
  case case13 ih => exact ih hp.next.next hp.here (List.forall_mem_cons.2 ⟨htop, hbelow⟩) (eq_error_of_onto h)
  -- the innermost frame ends
  case case6 ih | case10 ih =>
    rw [List.forall_mem_cons] at hbelow
    exact ih hp.next hbelow.1 hbelow.2 (eq_error_of_onto h)

theorem in_of_codePoint {letter : Char} {width : Nat} (hp : P p) (h : codePoint p letter width s = .error e) :
    e.In P := by
  simp only [codePoint] at h
  split at h
  · cases h
    exact in_badSyntax hp
  split at h
  · cases h
    rintro _ _ ⟨⟩
  split at h
  · cases h
    exact in_badSyntax hp
  · cases h

theorem in_of_escape (hp : P p) (h : escape p r = .error e) : e.In P := by
  cases r with
  | nil =>
    cases h
    exact in_badSyntax hp
  | cons c r =>
    simp only [escape] at h
    split at h
    · cases h
    · exact in_of_codePoint hp (eq_error_of_map h)
    · cases h
      exact in_badSyntax hp

theorem in_of_piece (hstart : P start) (hp : Along P p (c :: r)) (h : piece start p c r = .error e) : e.In P := by
  unfold piece at h
  split at h
  · cases h
    exact in_badSyntax hstart
  split at h
  · cases h
  split at h
  · exact in_of_escape hp.here (eq_error_of_map h)
  split at h
  · split at h
    · have htop : P (Frame.sequence p 0).start := hp.here
      exact in_of_skipNested hp.next.next htop (by simp) (eq_error_of_map h)
    · split at h <;> cases h
    · cases h
  · cases h

theorem in_of_literal (hstart : P start) (hp : Along P p s) (h : literal start p s = .error e) : e.In P := by
  fun_induction literal start p s with
  | case1 =>
    cases h
    exact in_badSyntax hstart
  | case2 p c r e' hpiece =>
    cases h
    exact in_of_piece hstart hp hpiece
  | case3 => cases h
  | case4 p c r value templated k hpiece ih => exact ih (hp.rest (piece_of hpiece).1) (eq_error_of_map h)

end Literals

end Quotation

namespace Lexer

section Lexemes

variable {P : Position → Prop} {p : Position} {c : Char} {s r : List Char} {e : Failure}

theorem in_of_heredoc (hp : P p) (h : heredoc p r = .error e) : e.In P := by
  unfold heredoc at h
  split at h
  · cases h
    exact in_badSyntax hp
  split at h
  · cases h
    exact in_badSyntax hp
  · cases h

theorem in_of_token (hp : Along P p (c :: r)) (h : token p c r = .error e) : e.In P := by
  unfold token at h
  split at h
  · cases h
  split at h
  · next hc =>
    obtain rfl : c = '"' := by simpa using hc
    exact Quotation.in_of_literal hp.here hp.next (eq_error_of_map h)
  split at h
  · exact in_of_heredoc hp.here h
  split at h
  · cases h
  split at h
  · cases h
  · unfold symbol at h
    split at h
    · cases h
    · cases h
      exact in_badSyntax hp.here

theorem in_of_lexeme (hp : Along P p (c :: r)) (h : lexeme p c r = .error e) : e.In P := by
  unfold lexeme at h
  split at h
  · cases h
  split at h
  · cases h
  split at h
  · split at h
    · cases h
      exact in_badSyntax hp.here
    · cases h
  · exact in_of_token hp (eq_error_of_map h)

/-- The faults that the lexer finds are on the way through the text. -/
theorem in_of_lexemes (hp : Along P p s) (h : lexemes p s = .error e) : e.In P := by
  fun_induction lexemes p s with
  | case1 => cases h
  | case2 p c r e' hl =>
    cases h
    exact in_of_lexeme hp hl
  | case3 p c r item k hk ih => exact ih (hp.rest (lexeme_of hk).1) (eq_error_of_map h)

/-- Lexemes in a row start on the way through their text. -/
theorem Chain.start_mem {ls : List Lexeme} (h : Chain p ls) (hp : Along P p (ls.flatMap Lexeme.text)) :
    ∀ l ∈ ls, P l.start := by
  induction ls generalizing p with
  | nil => simp
  | cons l ls ih =>
    obtain ⟨rfl, -, -, h⟩ := h
    rw [List.flatMap_cons] at hp
    exact List.forall_mem_cons.2 ⟨hp.here, ih h hp.after⟩

end Lexemes

end Lexer

/-! ### Faults of the reader -/

namespace Document

section Reader

variable {P : Position → Prop} {filename : String} {finish : Position} {ts : List PlacedToken} {e : Failure}

theorem placeOf_mem (hf : P finish) (ht : ∀ t ∈ ts, P t.start) : P (placeOf finish ts) := by
  cases ts with
  | nil => exact hf
  | cons t ts => exact ht t List.mem_cons_self

theorem in_of_range {first last : Nat} (h : range filename first last = .error e) : e.In P := by
  cases hr : SourceRange.make? filename first last with
  | error x =>
    rw [range, hr] at h
    cases h
    rintro _ _ ⟨⟩
  | ok r =>
    rw [range, hr] at h
    cases h

/-- An expression has its faults where a token starts or where a bracket stands that is open. -/
theorem in_of_expression {u : List (Bracket × Position)} (ht : ∀ t ∈ ts, P t.start) (hu : ∀ x ∈ u, P x.2)
    (h : expression u ts = .error e) : e.In P := by
  induction ts generalizing u with
  | nil =>
    unfold expression at h
    split at h
    · cases h
    · cases h
      exact in_badSyntax (hu _ List.mem_cons_self)
  | cons t ts ih =>
    rw [List.forall_mem_cons] at ht
    simp only [expression] at h
    split at h
    · cases h
    · cases h
    · exact ih ht.2 (List.forall_mem_cons.2 ⟨ht.1, hu⟩) (eq_error_of_map h)
    · cases h
      exact in_badSyntax ht.1
    · split at h
      · exact ih ht.2 (List.forall_mem_cons.1 hu).2 (eq_error_of_map h)
      · cases h
        exact in_badSyntax ht.1
    · exact ih ht.2 hu (eq_error_of_map h)

theorem in_of_labels (ht : ∀ t ∈ ts, P t.start) (h : labels ts = .error e) : e.In P := by
  induction ts with
  | nil => cases h
  | cons t ts ih =>
    rw [List.forall_mem_cons] at ht
    simp only [labels] at h
    split at h
    · exact ih ht.2 (eq_error_of_map h)
    · exact ih ht.2 (eq_error_of_map h)
    · cases h
      exact in_badSyntax ht.1
    · cases h

theorem in_of_header {kind : String} (hf : P finish) (ht : ∀ t ∈ ts, P t.start)
    (h : header finish kind ts = .error e) : e.In P := by
  rcases eq_error_of_bind h with h | ⟨⟨names, rest⟩, hl, h⟩
  · exact in_of_labels ht h
  · simp only at h
    split at h
    · cases h
    · cases h
      exact in_badSyntax (placeOf_mem hf fun t hr => ht t ((labels_inv hl).suffix.subset hr))

theorem in_of_definition {name : String} {line : Nat} (hf : P finish) (ht : ∀ t ∈ ts, P t.start)
    (h : definition filename finish name line ts = .error e) : e.In P := by
  rcases eq_error_of_bind h with h | ⟨⟨value, rest⟩, he, hd⟩
  · exact in_of_expression ht (by simp) h
  obtain ⟨rfl, -, -⟩ := closesAll_of_expression he
  simp only at hd
  split at hd
  · cases hd
    exact in_badSyntax (placeOf_mem hf fun t hr => ht t (List.mem_append_right _ hr))
  · rcases eq_error_of_bind hd with h | ⟨v, -, h⟩
    · cases hx : Expression.resolve (value.map PlacedToken.token) with
      | error x =>
        rw [hx] at h
        cases h
        rintro _ _ ⟨⟩
      | ok v =>
        rw [hx] at h
        cases h
    · rcases eq_error_of_bind h with h | ⟨lines, -, h⟩
      · exact in_of_range h
      · cases h

variable {σ : Progress} {t : PlacedToken}

theorem in_of_addAttribute {place : Position} {a : Attribute} (hp : P place)
    (h : σ.addAttribute place a = .error e) : e.In P := by
  unfold Progress.addAttribute at h
  split at h
  · cases h
  split at h
  · cases h
    exact in_badSyntax hp
  · cases h

/-- One item has its faults where a token starts or where the text ends. -/
theorem in_of_step (hf : P finish) (ht : P t.start) (hts : ∀ t ∈ ts, P t.start)
    (h : step filename finish σ t ts = .error e) : e.In P := by
  unfold step at h
  split at h
  · cases h
  · split at h
    · cases h
      exact in_badSyntax ht
    · next o outer _ =>
      rcases eq_error_of_bind h with h | ⟨b, -, h⟩
      · rcases eq_error_of_bind h with h | ⟨lines, -, h⟩
        · exact in_of_range h
        · cases h
      · cases h
  · split at h
    · next q n expr =>
      have hexpr : ∀ t ∈ expr, P t.start := (List.forall_mem_cons.1 hts).2
      rcases eq_error_of_bind h with h | ⟨⟨a, rest⟩, -, h⟩
      · exact in_of_definition hf hexpr h
      · rcases eq_error_of_bind h with h | ⟨σ', -, h⟩
        · exact in_of_addAttribute ht h
        · cases h
    · split at h
      · rcases eq_error_of_bind h with h | ⟨⟨names, rest⟩, -, h⟩
        · exact in_of_header hf hts h
        · rcases eq_error_of_bind h with h | ⟨lines, -, h⟩
          · exact in_of_range h
          · cases h
      · cases h
        exact in_badSyntax (placeOf_mem hf hts)
  · cases h
    exact in_badSyntax ht

/-- The faults that the reader finds are where a token starts or where the text ends. -/
theorem in_of_run (hf : P finish) (hts : ∀ t ∈ ts, P t.start)
    (h : (run filename finish σ ts).outcome = .error e) : e.In P := by
  fun_induction run filename finish σ ts with
  | case1 σ =>
    unfold Progress.finish at h
    split at h
    · cases h
    · cases h
      exact in_badSyntax hf
  | case2 σ t ts e' hstep =>
    cases h
    rw [List.forall_mem_cons] at hts
    exact in_of_step hf hts.1 hts.2 hstep
  | case3 σ t ts σ' rest hstep ih =>
    have hsuffix : rest <:+ t :: ts := (step_inv hstep).suffix.trans (List.suffix_cons t ts)
    exact ih (fun u hu => hts u (hsuffix.subset hu)) h

end Reader

end Document

/-! ### Whole texts -/

section Texts

variable {source filename : String} {e : Failure}

theorem in_of_lex (h : lex source = .error e) :
    e.In fun q => ∃ n ≤ source.toList.length, q = .ofOffset source.toList n :=
  Lexer.in_of_lexemes (along_offsets _) (eq_error_of_map h)

/-- The tokens of a text start at its offsets, and it ends at one. -/
theorem offsets_of_lex {x : Lexed} (h : lex source = .ok x) :
    (∃ n ≤ source.toList.length, x.finish = .ofOffset source.toList n) ∧
      ∀ t ∈ x.tokens, ∃ n ≤ source.toList.length, t.start = .ofOffset source.toList n := by
  have hall := along_offsets source.toList
  refine ⟨?_, fun t ht => ?_⟩
  · rw [finish_of_lex h]
    exact hall _ (List.prefix_refl _)
  · obtain ⟨ls, hls, rfl⟩ := Document.eq_ok_of_map h
    obtain ⟨l, hl, hlt⟩ := List.mem_filterMap.1 ht
    rw [Lexer.Lexeme.token?_start hlt]
    rw [← Lexer.lexemes_text hls] at hall ⊢
    exact (Lexer.chain_of_lexemes hls).start_mem hall l hl

theorem in_of_parse (h : (Document.parse filename source).outcome = .error e) :
    e.In fun q => ∃ n ≤ source.toList.length, q = .ofOffset source.toList n := by
  unfold Document.parse at h
  split at h
  · next e' hx =>
    cases h
    exact in_of_lex hx
  · next x hx =>
    obtain ⟨hf, ht⟩ := offsets_of_lex hx
    exact Document.in_of_run hf ht (eq_error_of_map h)

/-- A fault that is found in a text, by the lexer or by the reader, is at one offset of it: the line is one more than
there are newlines before, the column one more than there are characters since the last of them.  The message starts
with the name of the file and that place. -/
theorem fault_position {place : Position} {cause : SyntaxCause}
    (h : lex source = .error (.badSyntax place cause) ∨
      (Document.parse filename source).outcome = .error (.badSyntax place cause)) :
    (∃ n ≤ source.toList.length, place.line = 1 + (source.toList.take n).count '\n' ∧
      place.column = 1 + ((source.toList.take n).reverse.takeWhile (· != '\n')).length) ∧
    (Failure.badSyntax place cause).message filename =
      s!"{filename}:{place.line}:{place.column}: " ++ cause.message := by
  have hin : (Failure.badSyntax place cause).In fun q => ∃ n ≤ source.toList.length, q = .ofOffset source.toList n := by
    rcases h with h | h
    · exact in_of_lex h
    · exact in_of_parse h
  obtain ⟨n, hn, rfl⟩ := hin place cause rfl
  exact ⟨⟨n, hn, rfl, rfl⟩, rfl⟩

/-- A bracket that is never closed, behind a heredoc and a template sequence over two lines. -/
theorem fault_position_bracket :
    ∃ source : String, source = "h = <<E\n$\x7b\nE\nb \x7b\n  t = [f(\"$\x7bx\n\x7d\", 1], 2\n\x7d\n" ∧
      (Document.parse "a.tf" source).outcome = .error (.badSyntax ⟨6, 6⟩ (.unexpectedClosing .square)) ∧
      (∃ n ≤ source.toList.length, 6 = 1 + (source.toList.take n).count '\n' ∧
        6 = 1 + ((source.toList.take n).reverse.takeWhile (· != '\n')).length) ∧
      (Failure.badSyntax ⟨6, 6⟩ (.unexpectedClosing .square)).message "a.tf" = "a.tf:6:6: Unexpected ']'" := by
  obtain ⟨source, hs⟩ : ∃ source : String,
      source = "h = <<E\n$\x7b\nE\nb \x7b\n  t = [f(\"$\x7bx\n\x7d\", 1], 2\n\x7d\n" := ⟨_, rfl⟩
  have h : (Document.parse "a.tf" source).outcome = .error (.badSyntax ⟨6, 6⟩ (.unexpectedClosing .square)) := by
    have hunit : (Document.parse "a.tf" source).outcome.map (fun _ => ()) =
        .error (.badSyntax ⟨6, 6⟩ (.unexpectedClosing .square)) := by
      rw [hs]
      decide +kernel
    exact eq_error_of_map hunit
  obtain ⟨hplace, hmessage⟩ := fault_position (.inr h)
  exact ⟨source, hs, h, hplace, hmessage.trans (by decide +kernel)⟩

end Texts

end InfraAudit.Hcl

/-! ### Files -/

namespace InfraAudit.Project

open InfraAudit.Hcl InfraAudit.Files InfraAudit.Text

/-- Among files that are read together, a fault names one of them and is at an offset of its text. -/
theorem fault_position_readAll {w : Workspace} {paths : List Path} {filename : String} {place : Position}
    {cause : SyntaxCause} (h : (readAll w paths).outcome = .error (.invalid filename (.badSyntax place cause))) :
    ∃ path ∈ paths, filename = path.text ∧ ∃ bytes, w.read path.text = .ok bytes ∧
      ∃ n ≤ (readText bytes).toList.length, place = .ofOffset (readText bytes).toList n := by
  induction paths with
  | nil => cases h
  | cons path paths ih =>
    simp only [readAll] at h
    split at h
    · next e he =>
      cases h
      refine ⟨path, List.mem_cons_self, ?_⟩
      unfold readDocument at he
      split at he
      · cases he
      · cases he
      · next bytes hbytes =>
        replace he : (Document.parse path.text (readText bytes)).outcome.mapError (ReadError.invalid path.text) =
            .error (.invalid filename (.badSyntax place cause)) := he
        cases hd : (Document.parse path.text (readText bytes)).outcome with
        | ok d =>
          rw [hd] at he
          cases he
        | error f =>
          rw [hd] at he
          cases he
          exact ⟨rfl, bytes, hbytes, in_of_parse hd place cause rfl⟩
    · obtain ⟨path', hmem, hrest⟩ := ih (eq_error_of_map h)
      exact ⟨path', List.mem_cons_of_mem _ hmem, hrest⟩

end InfraAudit.Project
