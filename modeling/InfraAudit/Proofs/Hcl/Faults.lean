import InfraAudit.Proofs.Hcl.Inversion
import InfraAudit.Proofs.Hcl.Reading
import Mathlib.Algebra.Group.Nat.Defs

/-!
# InfraAudit.Proofs.Hcl.Faults — why a file cannot be read

* `Failure.IsSyntax`: a fault with its place in the text.
* `Overflowing`: a text with an escape of eight digits whose number is no machine integer.
* `fault_of_lexemes`: the lexer finds a fault with its place, or such an escape.
* `fault_of_step`, `fault_of_run`: the reader finds a fault with its place, or an integer literal of too many digits;
  the ranges it builds are possible, because the tokens are in order.
* `fault_of_parse`: what can be wrong with a file that has a name.
* `addSource_outcome`: such a file is read or has a fault with its place, but for escapes and integers that are too
  great.  `addSource_not_total`: these do occur.
-/

namespace InfraAudit.Hcl

open InfraAudit.Text

/-- A fault with its place in the text. -/
def Failure.IsSyntax (e : Failure) : Prop :=
  ∃ place cause, e = .badSyntax place cause

/-- The text has an escape of eight hexadecimal digits whose number is no machine integer. -/
def Overflowing (s : List Char) : Prop :=
  ∃ digits, '\\' :: 'U' :: digits <:+: s ∧ digits.length = 8 ∧ (∀ c ∈ digits, isHexDigit c = true) ∧
    Quotation.machineLimit ≤ hexValue digits

/-- What the lexer can find in a text: a fault with its place, or an escape of too great a number. -/
def LexFault (s : List Char) (e : Failure) : Prop :=
  e.IsSyntax ∨ e = .codePointOverflow ∧ Overflowing s

section Basics

variable {α β ε : Type} {s t : List Char} {e : Failure}

theorem eq_error_of_map {f : α → β} {x : Except ε α} {e : ε} (h : x.map f = .error e) : x = .error e := by
  cases x with
  | error e' =>
    cases h
    rfl
  | ok a => cases h

theorem eq_error_of_bind {f : α → Except ε β} {x : Except ε α} {e : ε} (h : x >>= f = .error e) :
    x = .error e ∨ ∃ a, x = .ok a ∧ f a = .error e := by
  cases x with
  | error e' =>
    cases h
    exact .inl rfl
  | ok a => exact .inr ⟨a, rfl, h⟩

theorem isSyntax_badSyntax (p : Position) (cause : SyntaxCause) : (Failure.badSyntax p cause).IsSyntax :=
  ⟨p, cause, rfl⟩

theorem LexFault.mono (h : LexFault s e) (hs : s <:+: t) : LexFault t e := by
  refine h.imp_right fun ⟨he, digits, hi, hd⟩ => ⟨he, digits, hi.trans hs, hd⟩

end Basics

/-! ### The numbers of escapes -/

theorem hexDigitValue_lt (c : Char) : hexDigitValue c < 16 := by
  unfold hexDigitValue
  split
  · next h =>
    have := Lexer.toNat_of_isDigit h
    omega
  split
  · next h =>
    simp only [Bool.and_eq_true, decide_eq_true_eq, Char.le_def, UInt32.le_iff_toNat_le] at h
    have h2 : c.toNat ≤ 102 := h.2
    omega
  split
  · next h =>
    simp only [Bool.and_eq_true, decide_eq_true_eq, Char.le_def, UInt32.le_iff_toNat_le] at h
    have h2 : c.toNat ≤ 70 := h.2
    omega
  · decide

theorem hexValue_lt (digits : List Char) : hexValue digits < 16 ^ digits.length := by
  have key (n : Nat) : digits.foldl (fun n c => 16 * n + hexDigitValue c) n < (n + 1) * 16 ^ digits.length := by
    induction digits generalizing n with
    | nil => simp
    | cons c digits ih =>
      have hc := hexDigitValue_lt c
      have hn : 16 * n + hexDigitValue c + 1 ≤ (n + 1) * 16 := by omega
      rw [List.foldl_cons, List.length_cons, Nat.pow_succ']
      calc digits.foldl (fun n c => 16 * n + hexDigitValue c) (16 * n + hexDigitValue c)
          < (16 * n + hexDigitValue c + 1) * 16 ^ digits.length := ih _
        _ ≤ (n + 1) * 16 * 16 ^ digits.length := Nat.mul_le_mul_right _ hn
        _ = (n + 1) * (16 * 16 ^ digits.length) := Nat.mul_assoc _ _ _
  have h0 := key 0
  rwa [Nat.zero_add, Nat.one_mul] at h0

/-! ### Faults of the lexer -/

namespace Quotation

section Literals

variable {start p : Position} {c : Char} {s r : List Char} {e : Failure}

theorem eq_error_of_onto {x : Except Failure Cut} (h : Cut.onto s <$> x = .error e) : x = .error e :=
  eq_error_of_map h

theorem fault_of_skipNested {top : Frame} {below : List Frame} (h : skipNested p top below s = .error e) :
    e.IsSyntax := by
  fun_induction skipNested p top below s with
  | case1 p top below =>
    cases h
    cases top <;> exact isSyntax_badSyntax _ _
  | case5 => cases h
  | case8 =>
    cases h
    exact isSyntax_badSyntax _ _
  | case9 => cases h
  | case11 =>
    cases h
    exact isSyntax_badSyntax _ _
  | _ => solve_by_elim [eq_error_of_onto]

theorem fault_of_codePoint {letter : Char} {width : Nat} (h : codePoint p letter width s = .error e) :
    e.IsSyntax ∨ e = .codePointOverflow ∧ ∃ digits rest, s = digits ++ rest ∧ digits.length = width ∧
      (∀ c ∈ digits, isHexDigit c = true) ∧ machineLimit ≤ hexValue digits := by
  simp only [codePoint] at h
  split at h
  · cases h
    exact .inl (isSyntax_badSyntax _ _)
  · next hd =>
    simp only [ne_eq, not_or, Decidable.not_not, Bool.not_eq_true', Bool.not_eq_false, List.all_eq_true] at hd
    split at h
    · next hn =>
      cases h
      exact .inr ⟨rfl, _, _, (Cut.splitAt_of width s).symm, hd.1, hd.2, hn⟩
    split at h
    · cases h
      exact .inl (isSyntax_badSyntax _ _)
    · cases h

/-- Only an escape of eight digits can be too great. -/
theorem fault_of_escape (h : escape p r = .error e) : LexFault ('\\' :: r) e := by
  cases r with
  | nil =>
    cases h
    exact .inl (isSyntax_badSyntax _ _)
  | cons c r =>
    simp only [escape] at h
    split at h
    · cases h
    · next width _ hw =>
      rcases fault_of_codePoint (eq_error_of_map h) with he | ⟨he, digits, rest, rfl, hl, hd, hn⟩
      · exact .inl he
      · have hlt := hexValue_lt digits
        rw [hl] at hlt
        unfold escapeWidth? at hw
        split at hw <;> cases hw
        · simp only [machineLimit] at hn
          omega
        · exact .inr ⟨he, digits, ⟨[], rest, rfl⟩, hl, hd, hn⟩
    · cases h
      exact .inl (isSyntax_badSyntax _ _)

theorem fault_of_piece (h : piece start p c r = .error e) : LexFault (c :: r) e := by
  unfold piece at h
  split at h
  · cases h
    exact .inl (isSyntax_badSyntax _ _)
  split at h
  · cases h
  split at h
  · next hc =>
    obtain rfl : c = '\\' := by simpa using hc
    exact fault_of_escape (eq_error_of_map h)
  split at h
  · split at h
    · exact .inl (fault_of_skipNested (eq_error_of_map h))
    · split at h <;> cases h
    · cases h
  · cases h

theorem fault_of_literal (h : literal start p s = .error e) : LexFault s e := by
  fun_induction literal start p s with
  | case1 =>
    cases h
    exact .inl (isSyntax_badSyntax _ _)
  | case2 p c r e' hp =>
    cases h
    exact fault_of_piece hp
  | case3 => cases h
  | case4 p c r value templated k hp ih =>
    have hk : k.taken ++ k.rest = c :: r := (piece_of hp).1
    exact (ih (eq_error_of_map h)).mono (hk ▸ (List.suffix_append _ _).isInfix)

end Literals

end Quotation

namespace Lexer

section Lexemes

variable {p : Position} {c : Char} {s r : List Char} {e : Failure}

theorem fault_of_heredoc (h : heredoc p r = .error e) : e.IsSyntax := by
  unfold heredoc at h
  split at h
  · cases h
    exact isSyntax_badSyntax _ _
  split at h
  · cases h
    exact isSyntax_badSyntax _ _
  · cases h

theorem fault_of_token (h : token p c r = .error e) : LexFault r e := by
  unfold token at h
  split at h
  · cases h
  split at h
  · exact Quotation.fault_of_literal (eq_error_of_map h)
  split at h
  · exact .inl (fault_of_heredoc h)
  split at h
  · cases h
  split at h
  · cases h
  · unfold symbol at h
    split at h
    · cases h
    · cases h
      exact .inl (isSyntax_badSyntax _ _)

theorem fault_of_lexeme (h : lexeme p c r = .error e) : LexFault (c :: r) e := by
  unfold lexeme at h
  split at h
  · cases h
  split at h
  · cases h
  split at h
  · split at h
    · cases h
      exact .inl (isSyntax_badSyntax _ _)
    · cases h
  · exact (fault_of_token (eq_error_of_map h)).mono (List.suffix_cons c r).isInfix

/-- What the lexer finds is a fault with its place or an escape of too great a number. -/
theorem fault_of_lexemes (h : lexemes p s = .error e) : LexFault s e := by
  fun_induction lexemes p s with
  | case1 => cases h
  | case2 p c r e' hl =>
    cases h
    exact fault_of_lexeme hl
  | case3 p c r item k hk ih =>
    have ht : k.taken ++ k.rest = c :: r := (lexeme_of hk).1
    exact (ih (eq_error_of_map h)).mono (ht ▸ (List.suffix_append _ _).isInfix)

end Lexemes

end Lexer

/-! ### Faults of the reader -/

namespace Document

/-- What the reader can find in tokens: a fault with its place, or an integer literal of too many digits. -/
def ReadFault (ts : List PlacedToken) (e : Failure) : Prop :=
  e.IsSyntax ∨ (∃ x, e = .oversizedInteger x) ∧ ∃ t ∈ ts, ¬ t.token.Readable

section Reader

variable {filename : String} {finish : Position} {ts us : List PlacedToken} {e : Failure}

theorem ReadFault.mono (h : ReadFault ts e) (hs : ∀ t ∈ ts, t ∈ us) : ReadFault us e :=
  h.imp_right fun ⟨he, t, ht, hr⟩ => ⟨he, t, hs t ht, hr⟩

theorem fault_of_expression {u : List (Bracket × Position)} (h : expression u ts = .error e) : e.IsSyntax := by
  induction ts generalizing u with
  | nil =>
    unfold expression at h
    split at h <;> cases h
    exact isSyntax_badSyntax _ _
  | cons t ts ih =>
    simp only [expression] at h
    split at h
    · cases h
    · cases h
    · exact ih (eq_error_of_map h)
    · cases h
      exact isSyntax_badSyntax _ _
    · split at h
      · exact ih (eq_error_of_map h)
      · cases h
        exact isSyntax_badSyntax _ _
    · exact ih (eq_error_of_map h)

theorem fault_of_labels (h : labels ts = .error e) : e.IsSyntax := by
  induction ts with
  | nil => cases h
  | cons t ts ih =>
    simp only [labels] at h
    split at h
    · exact ih (eq_error_of_map h)
    · exact ih (eq_error_of_map h)
    · cases h
      exact isSyntax_badSyntax _ _
    · cases h

theorem fault_of_header {kind : String} (h : header finish kind ts = .error e) : e.IsSyntax := by
  rcases eq_error_of_bind h with h | ⟨⟨names, rest⟩, -, h⟩
  · exact fault_of_labels h
  · simp only at h
    split at h
    · cases h
    · cases h
      exact isSyntax_badSyntax _ _

theorem not_readable_of_resolve {x : Decimal.OversizedInteger}
    (h : Expression.resolve (ts.map PlacedToken.token) = .error x) : ∃ t ∈ ts, ¬ t.token.Readable := by
  by_contra hn
  have hr : ∀ t ∈ ts, t.token.Readable := by simpa using hn
  obtain ⟨v, hv⟩ := Expression.resolve_ok (List.forall_mem_map.2 hr)
  rw [h] at hv
  cases hv

/-- An attribute whose lines are in order has a possible range. -/
theorem fault_of_definition {name : String} {line : Nat} (hf : filename ≠ "") (h1 : 1 ≤ line)
    (hl : ∀ t ∈ ts, line ≤ t.endLine) (h : definition filename finish name line ts = .error e) : ReadFault ts e := by
  rcases eq_error_of_bind h with h | ⟨⟨value, rest⟩, he, hd⟩
  · exact .inl (fault_of_expression h)
  obtain ⟨rfl, -, -⟩ := closesAll_of_expression he
  simp only at hd
  split at hd
  · cases hd
    exact .inl (isSyntax_badSyntax _ _)
  · next hne =>
    rcases eq_error_of_bind hd with h | ⟨v, -, h⟩
    · cases hx : Expression.resolve (value.map PlacedToken.token) with
      | error x =>
        rw [hx] at h
        cases h
        obtain ⟨t, ht, hr⟩ := not_readable_of_resolve hx
        exact .inr ⟨⟨x, rfl⟩, t, List.mem_append_left _ ht, hr⟩
      | ok v =>
        rw [hx] at h
        cases h
    · obtain ⟨u, us, rfl⟩ : ∃ u us, value = u :: us := List.exists_cons_of_ne_nil (by simpa using hne)
      have hlast : line ≤ lastLine (u :: us) :=
        Nat.le_trans (hl u List.mem_cons_self) (le_lastLine List.mem_cons_self)
      obtain ⟨r, hr, -⟩ := range_ok hf h1 hlast
      have hr' : range filename line ((u :: us).foldl (fun n t => max n t.endLine) 0) = .ok r := hr
      rw [hr'] at h
      cases h

/-- The open blocks start before the tokens that are left. -/
def Behind (σ : Progress) (ts : List PlacedToken) : Prop :=
  ∀ o ∈ σ.unclosed, ∀ t ∈ ts, o.range.startLine ≤ t.start.line

variable {σ σ' : Progress} {t : PlacedToken} {rest : List PlacedToken}

theorem fault_of_step (hf : filename ≠ "") (ho : InOrder (t :: ts)) (hb : Behind σ (t :: ts))
    (h : step filename finish σ t ts = .error e) : ReadFault (t :: ts) e := by
  have h1 : 1 ≤ t.start.line := ho.one_le t List.mem_cons_self
  unfold step at h
  split at h
  · cases h
  · split at h
    · cases h
      exact .inl (isSyntax_badSyntax _ _)
    · next o outer hσ =>
      have hle : o.range.startLine ≤ t.start.line := hb o (hσ ▸ List.mem_cons_self) t List.mem_cons_self
      obtain ⟨lines, -, hclose⟩ := close_ok o hle
      rcases eq_error_of_bind h with h | ⟨b, -, h⟩
      · rw [hclose] at h
        cases h
      · cases h
  · split at h
    · next q n expr =>
      rcases eq_error_of_bind h with h | ⟨⟨a, rest⟩, -, h⟩
      · refine (fault_of_definition hf h1 (fun u hu => ?_) h).mono fun u hu => ?_
        · have hu' : u ∈ ⟨.equals, q, n⟩ :: expr := List.mem_cons_of_mem _ hu
          exact Nat.le_trans (ho.start_le_start hu') (ho.start_le u (List.mem_cons_of_mem _ hu'))
        · exact List.mem_cons_of_mem _ (List.mem_cons_of_mem _ hu)
      · rcases eq_error_of_bind h with h | ⟨σ', -, h⟩
        · unfold Progress.addAttribute at h
          split at h
          · cases h
          split at h
          · cases h
            exact .inl (isSyntax_badSyntax _ _)
          · cases h
        · cases h
    · split at h
      · rcases eq_error_of_bind h with h | ⟨⟨names, rest⟩, -, h⟩
        · exact .inl (fault_of_header h)
        · obtain ⟨r, hr, -⟩ := range_ok hf h1 (Nat.le_refl t.start.line)
          rcases eq_error_of_bind h with h | ⟨lines, -, h⟩
          · rw [hr] at h
            cases h
          · cases h
      · cases h
        exact .inl (isSyntax_badSyntax _ _)
  · cases h
    exact .inl (isSyntax_badSyntax _ _)

theorem Step.suffix (h : Step filename finish σ t ts σ' rest) : rest <:+ ts := by
  cases h with
  | newline => exact List.suffix_refl _
  | close => exact List.suffix_refl _
  | assignment _ _ hd _ =>
    obtain ⟨value, rfl, -⟩ := definition_eq_ok_iff.1 hd
    exact (List.suffix_append _ _).trans (List.suffix_cons _ _)
  | «open» _ hl _ _ => exact (List.suffix_cons _ _).trans hl.suffix

/-- A step leaves the open blocks where they start, or opens one that starts at its token. -/
theorem Step.starts (h : Step filename finish σ t ts σ' rest) :
    ∀ o ∈ σ'.unclosed, (∃ o' ∈ σ.unclosed, o'.range = o.range) ∨ o.range.startLine = t.start.line := by
  -- what is added to the innermost block does not change its range
  have extend (σ : Progress) (as : List Attribute) (bs : List Block) :
      ∀ o ∈ (σ.extend as bs).unclosed, ∃ o' ∈ σ.unclosed, o'.range = o.range := by
    obtain ⟨u, d, w⟩ := σ
    cases u with
    | nil => exact fun o ho => absurd ho List.not_mem_nil
    | cons o u =>
      exact List.forall_mem_cons.2 ⟨⟨o, List.mem_cons_self, rfl⟩, fun o' ho' => ⟨o', List.mem_cons_of_mem _ ho', rfl⟩⟩
  cases h with
  | newline => exact fun o ho => .inl ⟨o, ho, rfl⟩
  | close _ hσ hb =>
    intro o ho
    rw [Progress.addBlock_eq] at ho
    obtain ⟨o', ho', hr⟩ := extend _ _ _ o ho
    exact .inl ⟨o', hσ ▸ List.mem_cons_of_mem _ ho', hr⟩
  | assignment _ _ _ ha =>
    obtain ⟨rfl, -⟩ := addAttribute_inv ha
    exact fun o ho => .inl (extend _ _ _ o ho)
  | «open» _ _ _ hr =>
    refine List.forall_mem_cons.2 ⟨.inr (range_eq_ok_iff.1 hr).2.1, fun o ho => .inl ⟨o, ho, rfl⟩⟩

theorem Step.behind (h : Step filename finish σ t ts σ' rest) (ho : InOrder (t :: ts)) (hb : Behind σ (t :: ts)) :
    Behind σ' rest := by
  intro o hmem u hu
  have hu' : u ∈ ts := h.suffix.subset hu
  rcases h.starts o hmem with ⟨o', ho', hr⟩ | hs
  · rw [← hr]
    exact hb o' ho' u (List.mem_cons_of_mem _ hu')
  · rw [hs]
    exact ho.start_le_start hu'

/-- What the reader finds in tokens that are in order is a fault with its place or an integer literal of too many
digits. -/
theorem fault_of_run (hf : filename ≠ "") (ho : InOrder ts) (hb : Behind σ ts)
    (h : (run filename finish σ ts).outcome = .error e) : ReadFault ts e := by
  fun_induction run filename finish σ ts with
  | case1 σ =>
    unfold Progress.finish at h
    split at h <;> cases h
    exact .inl (isSyntax_badSyntax _ _)
  | case2 σ t ts e' hstep =>
    cases h
    exact fault_of_step hf ho hb hstep
  | case3 σ t ts σ' rest hstep ih =>
    have hs := step_inv hstep
    have hrest : rest <:+ t :: ts := hs.suffix.trans (List.suffix_cons t ts)
    exact (ih (ho.sublist hrest.sublist) (hs.behind ho hb) h).mono fun u hu => hrest.subset hu

/-- What can be wrong with a file that has a name: a fault with its place, an escape of too great a number, or an
integer literal of too many digits. -/
theorem fault_of_parse {source : String} (hf : filename ≠ "") (h : (parse filename source).outcome = .error e) :
    LexFault source.toList e ∨ ∃ x, lex source = .ok x ∧ ReadFault x.tokens e := by
  unfold parse at h
  split at h
  · next e' hx =>
    cases h
    exact .inl (Lexer.fault_of_lexemes (eq_error_of_map hx))
  · next x hx =>
    have hb : Behind .start x.tokens := fun o ho => absurd ho List.not_mem_nil
    exact .inr ⟨x, hx, fault_of_run hf (inOrder_of_lex hx) hb (eq_error_of_map h)⟩

end Reader

end Document

end InfraAudit.Hcl

/-! ### Whole files -/

namespace InfraAudit.Project

open InfraAudit.Hcl InfraAudit.Text

/-- A file that has a name is read, or has a fault with its place, or an escape whose number is no machine integer,
or an integer literal of too many digits. -/
theorem addSource_outcome (p : Project) {filename source : String} (hf : filename ≠ "") :
    (∃ q, (p.addSource filename source).outcome = .ok q) ∨
      (∃ place cause, (p.addSource filename source).outcome = .error (.badSyntax place cause)) ∨
      ((p.addSource filename source).outcome = .error .codePointOverflow ∧ Overflowing source.toList) ∨
      ∃ n x, (p.addSource filename source).outcome = .error (.oversizedInteger n) ∧ lex source = .ok x ∧
        ∃ t ∈ x.tokens, ¬ t.token.Readable := by
  cases h : (p.addSource filename source).outcome with
  | ok q => exact .inl ⟨q, rfl⟩
  | error e =>
    have he : (Document.parse filename source).outcome = .error e := eq_error_of_map h
    rcases Document.fault_of_parse hf he with (⟨place, cause, rfl⟩ | ⟨rfl, ho⟩) | ⟨x, hx, hr⟩
    · exact .inr (.inl ⟨place, cause, rfl⟩)
    · exact .inr (.inr (.inl ⟨rfl, ho⟩))
    · rcases hr with ⟨place, cause, rfl⟩ | ⟨⟨n, rfl⟩, ht⟩
      · exact .inr (.inl ⟨place, cause, rfl⟩)
      · exact .inr (.inr (.inr ⟨n, x, rfl, hx, ht⟩))

theorem outcome_escape :
    (empty.addSource "main.tf" "a = \"\\UFFFFFFFF\"\n").outcome = .error .codePointOverflow := by
  have hx : lex "a = \"\\UFFFFFFFF\"\n" = .error .codePointOverflow := by decide +kernel
  rw [addSource, Document.parse, hx]
  rfl

/-- An escape of the greatest eight digits. -/
theorem addSource_outcome_escape :
    "main.tf" ≠ "" ∧ (empty.addSource "main.tf" "a = \"\\UFFFFFFFF\"\n").outcome = .error .codePointOverflow ∧
      Overflowing "a = \"\\UFFFFFFFF\"\n".toList := by
  refine ⟨by decide, outcome_escape, ?_⟩
  obtain ⟨q, h⟩ | ⟨place, cause, h⟩ | ⟨-, h⟩ | ⟨n, x, h, -⟩ :=
    @addSource_outcome empty "main.tf" "a = \"\\UFFFFFFFF\"\n" (by decide)
  · rw [outcome_escape] at h
    cases h
  · rw [outcome_escape] at h
    cases h
  · exact h
  · rw [outcome_escape] at h
    cases h

/-- Files that are neither read nor have a fault with its place. -/
theorem addSource_not_total :
    ¬ ∀ (p : Project) (filename source : String), filename ≠ "" →
      (∃ q, (p.addSource filename source).outcome = .ok q) ∨
        ∃ place cause, (p.addSource filename source).outcome = .error (.badSyntax place cause) := by
  intro h
  rcases h empty "main.tf" "a = \"\\UFFFFFFFF\"\n" (by decide) with ⟨q, hq⟩ | ⟨place, cause, he⟩
  · rw [outcome_escape] at hq
    cases hq
  · rw [outcome_escape] at he
    cases he

/-- So are all files in which an attribute has an integer of too many digits. -/
theorem addSource_oversized (p : Project) (filename : String) {d : Char} {ds : List Char}
    (hall : ∀ c ∈ d :: ds, isDigit c = true) (hl : Decimal.digitLimit < (d :: ds).length) :
    (p.addSource filename (String.ofList ('a' :: ' ' :: '=' :: ' ' :: d :: ds))).outcome =
      .error (.oversizedInteger ⟨(d :: ds).length⟩) := by
  obtain ⟨hd, hds⟩ := List.forall_mem_cons.1 hall
  have hreads : Lexer.Reads (String.ofList ('a' :: ' ' :: '=' :: ' ' :: d :: ds)).toList
      [.identifier "a", .equals, .number (String.ofList (d :: ds))] [] := by
    rw [String.toList_ofList]
    have hname : Lexer.Reads "a".toList [.identifier "a"] ([' ', '=', ' '] ++ d :: ds ++ []) :=
      Lexer.reads_identifier (by decide +kernel) (Lexer.apart_cons (by decide) (by decide))
    have hequals : Lexer.Reads [' ', '=', ' '] [.equals] (d :: ds ++ []) := Lexer.reads_equals
    have hvalue : Lexer.Reads (d :: ds) [.number (String.ofList (d :: ds))] [] :=
      Lexer.reads_number hd hds (by rintro c ⟨⟩)
    exact hname.append (hequals.append hvalue)
  obtain ⟨x, hx, ht, -⟩ := hreads.lex
  obtain ⟨k, us, hk, hname, hus⟩ := List.map_eq_cons_iff.1 ht
  obtain ⟨⟨e, q, n⟩, vs, rfl, rfl, hvs⟩ := List.map_eq_cons_iff.1 hus
  obtain ⟨v, ws, rfl, hv, hws⟩ := List.map_eq_cons_iff.1 hvs
  obtain rfl := List.map_eq_nil_iff.1 hws
  have hplain : ¬ ((d :: ds).any fun c => c == '.' || c == 'e' || c == 'E') = true := by
    rw [List.any_eq_true]
    rintro ⟨c, hc, he⟩
    have hcd : isDigit c = true := hall c hc
    have ne (e : Char) (he : isDigit e = false) : c ≠ e := Lexer.ne_of_class hcd he
    simp [ne '.' (by decide), ne 'e' (by decide), ne 'E' (by decide)] at he
  have hnum : Decimal.Numeral.ofLiteral (String.ofList (d :: ds)) = .error ⟨(d :: ds).length⟩ := by
    rw [Decimal.Numeral.ofLiteral, String.toList_ofList]
    simp only [hplain, Bool.false_eq_true, ite_false, hl, ite_true]
  have hresolve : Expression.resolve [v.token] = .error ⟨(d :: ds).length⟩ := by
    rw [hv, Expression.resolve]
    have hstrip : Expression.stripNewlines [Token.number (String.ofList (d :: ds))] =
        [.number (String.ofList (d :: ds))] := Expression.stripNewlines_of_mem (by simp)
    rw [hstrip, Expression.resolveStripped, Expression.literal, hnum]
    rfl
  have hexpr : Document.expression [] [v] = .ok ([v], []) := by simp [Document.expression, hv, Except.map]
  have hdef (line : Nat) :
      Document.definition filename x.finish "a" line [v] = .error (.oversizedInteger ⟨(d :: ds).length⟩) := by
    simp [Document.definition, hexpr, hresolve, bind, Except.bind, Except.mapError]
  have hstep : Document.step filename x.finish .start k [⟨.equals, q, n⟩, v] =
      .error (.oversizedInteger ⟨(d :: ds).length⟩) := by
    simp only [Document.step, hname, hdef]
    rfl
  rw [addSource, Document.parse, hx]
  simp only [hk, Document.run_of_error hstep]
  rfl

end InfraAudit.Project
