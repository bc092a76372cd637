import InfraAudit.Project
import InfraAudit.Proofs.Hcl.Grammar

/-!
# InfraAudit.Proofs.Hcl.Inversion — where ranges, attributes and blocks come from

Each part of a step as an equivalence, so that a proof about the steps of the reader never opens the reader:
* `range_eq_ok_iff`: the ranges that are built are those of lines in order in a named file.
* `definition_eq_ok_iff`: an attribute comes from a nested run of tokens that has a value.
* `close_eq_ok_iff`: a closed block has the parts of the open one and a range up to its closing brace.
* `parse_ok_inv`, `parse_of_run`, `addSource_eq_ok_iff`: a text is read if its tokens are, a file if its text is.
* `exists_site_of_parse`: a place of a text that is known by what stands there.
-/

namespace InfraAudit.Hcl.Document

theorem mapError_eq_ok_iff {α ε ε' : Type} {f : ε → ε'} {x : Except ε α} {a : α} :
    x.mapError f = .ok a ↔ x = .ok a := by
  cases x <;> simp [Except.mapError]

/-- The range of a covered stretch is possible. -/
theorem Covers.bounds {filename : String} {first last : Nat} {r : SourceRange} (h : Covers filename first last r) :
    filename ≠ "" ∧ 1 ≤ first ∧ first ≤ last := by
  obtain ⟨rfl, rfl, rfl⟩ := h
  exact ⟨r.filename_ne, r.one_le_start, r.start_le_end⟩

/-- A stretch is covered by one range. -/
theorem Covers.unique {filename : String} {first last : Nat} {r r' : SourceRange} (h : Covers filename first last r)
    (h' : Covers filename first last r') : r = r' := by
  obtain ⟨file, start, stop, _, _, _⟩ := r
  obtain ⟨file', start', stop', _, _, _⟩ := r'
  obtain ⟨rfl, rfl, rfl⟩ := h
  obtain ⟨rfl, rfl, rfl⟩ := h'
  rfl

section Parts

variable {filename : String} {finish : Position} {first last line : Nat} {r : SourceRange} {name : String}
  {ts rest : List PlacedToken} {a : Attribute} {o : OpenBlock} {b : Block}

theorem range_eq_ok_iff : range filename first last = .ok r ↔ Covers filename first last r := by
  constructor
  · intro h
    unfold range SourceRange.make? at h
    split at h
    · cases h
    split at h
    · cases h
    split at h
    · cases h
    · cases h
      exact ⟨rfl, rfl, rfl⟩
  · intro h
    obtain ⟨hf, h1, h2⟩ := h.bounds
    obtain ⟨r', hr', hc⟩ := range_ok hf h1 h2
    rw [hr', hc.unique h]

theorem definition_eq_ok_iff :
    definition filename finish name line ts = .ok (a, rest) ↔
      ∃ value, ts = value ++ rest ∧ value ≠ [] ∧ NestedOver (· ≠ .newline) (value.map PlacedToken.token) ∧
        EndsExpression rest ∧ Expression.resolve (value.map PlacedToken.token) = .ok a.value ∧
        Covers filename line (lastLine value) a.range ∧ a.name = name := by
  constructor
  · intro h
    obtain ⟨⟨value, rest'⟩, he, h⟩ := eq_ok_of_bind h
    simp only at h
    split at h
    · cases h
    · next hne =>
      obtain ⟨v, hv, h⟩ := eq_ok_of_bind h
      obtain ⟨lines, hl, h⟩ := eq_ok_of_bind h
      cases h
      obtain ⟨rfl, hc, hs⟩ := closesAll_of_expression he
      cases hc with
      | nil hn =>
        exact ⟨value, rfl, by simpa using hne, hn, hs, mapError_eq_ok_iff.1 hv, range_eq_ok_iff.1 hl, rfl⟩
  · rintro ⟨value, rfl, hne, hn, hs, hv, hc, rfl⟩
    have hl : range filename line (value.foldl (fun n t => max n t.endLine) 0) = .ok a.range :=
      range_eq_ok_iff.2 hc
    have he : value.isEmpty = false := by simpa using hne
    simp only [definition, expression_append hn hs, bind, Except.bind, he, hv, hl, Except.mapError]
    rfl

theorem close_eq_ok_iff :
    o.close line = .ok b ↔
      Covers o.range.filename o.range.startLine line b.range ∧
        b = ⟨o.kind, o.labels, b.range, o.attributes, o.children⟩ := by
  have hr (lines : SourceRange) : (o.range.close? line).mapError Failure.badRange = .ok lines ↔
      Covers o.range.filename o.range.startLine line lines := range_eq_ok_iff
  constructor
  · intro h
    obtain ⟨lines, hl, h⟩ := eq_ok_of_bind h
    cases h
    exact ⟨(hr lines).1 hl, rfl⟩
  · rintro ⟨hc, hb⟩
    rw [hb, OpenBlock.close, (hr b.range).2 hc]
    rfl

/-- The rest of a run is a run from what the first step leaves. -/
theorem run_cons_inv {σ : Progress} {t : PlacedToken} {x : Logged (Except Failure (List Block))}
    {bs : List Block} (h : run filename finish σ (t :: ts) = x) (hx : x.outcome = .ok bs) :
    ∃ σ' rest, Step filename finish σ t ts σ' rest ∧ run filename finish σ' rest = x := by
  rw [run] at h
  split at h
  · subst h
    cases hx
  · next σ' rest hs => exact ⟨σ', rest, step_inv hs, h⟩

theorem run_of_error {σ : Progress} {t : PlacedToken} {e : Failure} (h : step filename finish σ t ts = .error e) :
    run filename finish σ (t :: ts) = ⟨σ.warnings, .error e⟩ := by
  rw [run]
  split
  · next he =>
    rw [h] at he
    cases he
    rfl
  · next he =>
    rw [h] at he
    cases he

end Parts

section Texts

variable {filename s : String} {x : Lexed} {d : Document} {w : List Warning} {bs : List Block}

theorem parse_ok_inv (h : parse filename s = ⟨w, .ok d⟩) :
    ∃ x, lex s = .ok x ∧ d.comments = x.comments ∧ run filename x.finish .start x.tokens = ⟨w, .ok d.blocks⟩ := by
  unfold parse at h
  split at h
  · cases h
  · next x hx =>
    obtain ⟨rfl, ho⟩ := Logged.mk.inj h
    obtain ⟨bs, hb, rfl⟩ := eq_ok_of_map ho
    refine ⟨x, hx, rfl, ?_⟩
    rw [← hb]

theorem parse_of_run (hx : lex s = .ok x)
    (hr : run filename x.finish .start x.tokens = ⟨w, .ok bs⟩) :
    parse filename s = ⟨w, .ok ⟨bs, x.comments⟩⟩ := by
  rw [parse, hx]
  simp only [hr]
  rfl

end Texts

end InfraAudit.Hcl.Document

namespace InfraAudit

open InfraAudit.Hcl

theorem eq_ok_of_toOption {ε α : Type} {x : Except ε α} {a : α} (h : x.toOption = some a) : x = .ok a := by
  cases x with
  | error e => cases h
  | ok b => rw [Option.some.inj h]

/-- An outcome of which something is known has no error. -/
theorem Logged.ok_of_map {ε α β : Type} {o : Logged (Except ε α)} {g : List Warning → α → β} {b : β}
    (h : o.outcome.toOption.map (g o.warnings) = some b) : ∃ w a, o = ⟨w, .ok a⟩ ∧ g w a = b := by
  obtain ⟨w, e | a⟩ := o
  · cases h
  · exact ⟨w, a, rfl, Option.some.inj h⟩

/-- A text is read if something is found at a place of what it is read as. -/
theorem Hcl.exists_site_of_parse (filename source : String) (q : Site → Bool)
    (h : (Document.parse filename source).outcome.toOption.map (fun d => (sites d.blocks).any q) = some true) :
    ∃ d, (Document.parse filename source).outcome = .ok d ∧ ∃ s ∈ sites d.blocks, q s = true := by
  obtain ⟨d, hd, hany⟩ := Option.map_eq_some_iff.1 h
  exact ⟨d, eq_ok_of_toOption hd, List.any_eq_true.1 hany⟩

namespace Project

theorem addSource_eq_ok_iff {p q : Project} {filename s : String} {w : List Warning} :
    p.addSource filename s = ⟨w, .ok q⟩ ↔ ∃ d, Document.parse filename s = ⟨w, .ok d⟩ ∧ p.add filename d = q := by
  constructor
  · intro h
    obtain ⟨rfl, ho⟩ := Logged.mk.inj h
    obtain ⟨d, hd, rfl⟩ := Document.eq_ok_of_map ho
    refine ⟨d, ?_, rfl⟩
    rw [← hd]
  · rintro ⟨d, hd, rfl⟩
    rw [addSource, hd]
    rfl

end Project

end InfraAudit
