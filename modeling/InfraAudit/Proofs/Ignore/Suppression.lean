import InfraAudit.Ignore.Index
import Mathlib.Data.List.Basic
import Mathlib.Tactic.Tauto

/-!
# InfraAudit.Proofs.Ignore.Suppression — what an index of directives suppresses

* `Scope.covers`: what one directive suppresses by itself.
* `suppresses_add`: a directive adds what it covers, also on a line that has one already.
* `suppresses_addComments`: an index suppresses what it did before, and what the directives of the comments cover.
* `Directive`: a directive as it is added, with its codes; `suppresses_iff_exists_directive`: an index suppresses what
  some directive in the list of those added does by itself.
-/

namespace InfraAudit

namespace Keyed

variable {α β : Type} [BEq α] [LawfulBEq α] {key : α}

/-- What some pair satisfies after a value is put: a known value must be replaced by one that satisfies what the two
did. -/
theorem any_put {q : α × β → Bool} {value joined : β} {m : List (α × β)}
    (hs : ∀ known, m.lookup key = some known → q (key, joined) = (q (key, known) || q (key, value)))
    (hn : m.lookup key = none → joined = value) : (put key joined m).any q = (m.any q || q (key, value)) := by
  induction m with
  | nil =>
    rw [hn rfl]
    simp [put]
  | cons p m ih =>
    obtain ⟨k, v⟩ := p
    by_cases hk : k = key
    · subst hk
      have hq : q (k, joined) = (q (k, v) || q (k, value)) := hs v (by rw [List.lookup_cons_self])
      simp only [put, beq_self_eq_true, ite_true, List.any_cons, hq, Bool.or_right_comm]
    · have hb : (k == key) = false := beq_eq_false_iff_ne.2 hk
      have hb' : (key == k) = false := beq_eq_false_iff_ne.2 (Ne.symm hk)
      rw [List.lookup_cons, hb'] at hs hn
      rw [put, hb]
      simp only [Bool.false_eq_true, ite_false, List.any_cons, ih hs hn, Bool.or_assoc]

end Keyed

namespace Ignore

open InfraAudit.Hcl InfraAudit.Text

/-- Whether a directive on a line of a file suppresses the finding: it holds its code and stands on a line of its
range or on the line before. -/
def Scope.covers (filename : String) (line : Int) (f : Finding) (scope : Scope) : Bool :=
  filename == f.range.filename && f.range.startLine - 1 ≤ line && line ≤ f.range.endLine &&
    scope.holds (upper f.code)

/-- Whether a comment of a file has a directive that suppresses the finding. -/
def covers (filename : String) (f : Finding) (c : Comment) : Bool :=
  (directive? c.text).any (Scope.covers filename c.endLine f)

section Suppression

variable {filename : String} {line : Int} {scope : Scope}

theorem Scope.holds_join (code : String) (s s' : Scope) : (s.join s').holds code = (s.holds code || s'.holds code) := by
  cases s with
  | everything => rfl
  | only xs =>
    cases s' with
    | everything => simp [join, holds]
    | only ys =>
      by_cases hx : xs.contains code = true
      · simp_all [join, holds]
      · simp_all [join, holds]

theorem Scope.covers_join (f : Finding) (s s' : Scope) :
    (s.join s').covers filename line f = (s.covers filename line f || s'.covers filename line f) := by
  rw [covers, covers, covers, holds_join, Bool.and_or_distrib_left]

namespace Index

theorem suppresses_add (ix : Index) (f : Finding) :
    (ix.add filename line scope).suppresses f = (ix.suppresses f || scope.covers filename line f) := by
  let suppressed (e : (String × Int) × Scope) : Bool := e.2.covers e.1.1 e.1.2 f
  have hs (ix : Index) : ix.suppresses f = ix.entries.any suppressed := rfl
  rw [hs, hs, add]
  refine Keyed.any_put (fun known hk => ?_) fun hk => ?_
  · rw [hk]
    exact Scope.covers_join f known scope
  · rw [hk]

/-- The index with the directive of a comment, if it has one. -/
def addComment (ix : Index) (filename : String) (c : Comment) : Index :=
  match directive? c.text with
  | some scope => ix.add filename c.endLine scope
  | none => ix

theorem addComments_cons (ix : Index) (c : Comment) (cs : List Comment) :
    ix.addComments filename (c :: cs) = (ix.addComment filename c).addComments filename cs := rfl

theorem addComments_append (ix : Index) (cs ds : List Comment) :
    ix.addComments filename (cs ++ ds) = (ix.addComments filename cs).addComments filename ds :=
  List.foldl_append

theorem suppresses_addComment (ix : Index) (c : Comment) (f : Finding) :
    (ix.addComment filename c).suppresses f = (ix.suppresses f || Ignore.covers filename f c) := by
  unfold addComment Ignore.covers
  cases directive? c.text with
  | none => simp
  | some scope => exact suppresses_add ix f

theorem suppresses_addComments (ix : Index) (comments : List Comment) (f : Finding) :
    (ix.addComments filename comments).suppresses f = (ix.suppresses f || comments.any (Ignore.covers filename f)) := by
  induction comments generalizing ix with
  | nil => simp [addComments]
  | cons c cs ih => rw [addComments_cons, ih, suppresses_addComment, List.any_cons, Bool.or_assoc]

end Index

end Suppression

/-! ### Lists of directives -/

/-- A directive on a line of a file with the codes that it lists; without codes it is for every check. -/
structure Directive where
  filename : String
  line : Int
  codes : List String
  deriving DecidableEq

/-- Whether the directive by itself suppresses the finding. -/
def Directive.Covers (d : Directive) (f : Finding) : Prop :=
  d.filename = f.range.filename ∧ (f.range.startLine : Int) - 1 ≤ d.line ∧ d.line ≤ f.range.endLine ∧
    (d.codes = [] ∨ upper f.code ∈ d.codes)

/-- The index with directives added one after the other. -/
def Index.addDirectives (ix : Index) (ds : List Directive) : Index :=
  ds.foldl (fun ix d => ix.add d.filename d.line (.ofCodes d.codes)) ix

section Directives

variable {ds : List Directive} {f : Finding}

theorem Scope.holds_ofCodes (code : String) (codes : List String) :
    (ofCodes codes).holds code = true ↔ codes = [] ∨ code ∈ codes := by
  cases codes with
  | nil => simp [ofCodes, holds]
  | cons c cs => simp [ofCodes, holds]

theorem Directive.covers_iff (d : Directive) (f : Finding) :
    (Scope.ofCodes d.codes).covers d.filename d.line f = true ↔ d.Covers f := by
  simp only [Scope.covers, Covers, Bool.and_eq_true, beq_iff_eq, decide_eq_true_eq, Scope.holds_ofCodes, and_assoc]

/-- Every directive adds what it covers by itself, whatever is on its line already. -/
theorem Index.suppresses_addDirectives (ix : Index) (ds : List Directive) (f : Finding) :
    (ix.addDirectives ds).suppresses f = true ↔ ix.suppresses f = true ∨ ∃ d ∈ ds, d.Covers f := by
  induction ds generalizing ix with
  | nil => simp [addDirectives]
  | cons d ds ih =>
    have hd : ix.addDirectives (d :: ds) = (ix.add d.filename d.line (.ofCodes d.codes)).addDirectives ds := rfl
    rw [hd, ih, suppresses_add, Bool.or_eq_true, d.covers_iff, or_assoc, List.exists_mem_cons_iff]

/-- An index suppresses a finding if and only if one of the directives that were added stands in the file of the
finding, on a line of its range or on the line before, and lists its code or no codes.  So neither the order nor the
repetition of the directives matters. -/
theorem suppresses_iff_exists_directive (ds : List Directive) (f : Finding) :
    ((Index.empty.addDirectives ds).suppresses f = true ↔
        ∃ d ∈ ds, d.filename = f.range.filename ∧ (f.range.startLine : Int) - 1 ≤ d.line ∧
          d.line ≤ f.range.endLine ∧ (d.codes = [] ∨ upper f.code ∈ d.codes)) ∧
      ∀ ds' : List Directive, (∀ d, d ∈ ds' ↔ d ∈ ds) →
        (Index.empty.addDirectives ds').suppresses f = (Index.empty.addDirectives ds).suppresses f := by
  have hempty (ds : List Directive) :
      (Index.empty.addDirectives ds).suppresses f = true ↔ ∃ d ∈ ds, d.Covers f := by
    have hnone : Index.empty.suppresses f = false := rfl
    rw [Index.suppresses_addDirectives, hnone, Bool.false_eq_true, false_or]
  refine ⟨hempty ds, fun ds' hds => ?_⟩
  rw [Bool.eq_iff_iff, hempty, hempty]
  exact exists_congr fun d => and_congr_left' (hds d)

/-- On one line a directive for all checks between two for single codes, and the same ones in another order with one of
them twice: a finding with a third code is suppressed by both indices. -/
theorem suppresses_iff_exists_directive_line :
    ∃ (a b c : Directive) (f : Finding),
      a = ⟨"a.tf", 3, ["AWS001"]⟩ ∧ b = ⟨"a.tf", 3, []⟩ ∧ c = ⟨"a.tf", 3, ["AWS002"]⟩ ∧
      f.code = "gen001" ∧ f.range.startLine = 4 ∧ (∀ d, d ∈ [c, b, a, c] ↔ d ∈ [a, b, c]) ∧
      (Index.empty.addDirectives [a, b, c]).suppresses f = true ∧
      (Index.empty.addDirectives [c, b, a, c]).suppresses f = (Index.empty.addDirectives [a, b, c]).suppresses f := by
  let f : Finding := ⟨"gen001", "x", ⟨"a.tf", 4, 5, by decide, by decide, by decide⟩, .warning, ""⟩
  have hsame : ∀ d : Directive, d ∈ [⟨"a.tf", 3, ["AWS002"]⟩, ⟨"a.tf", 3, []⟩, ⟨"a.tf", 3, ["AWS001"]⟩,
      ⟨"a.tf", 3, ["AWS002"]⟩] ↔ d ∈ [⟨"a.tf", 3, ["AWS001"]⟩, ⟨"a.tf", 3, []⟩, ⟨"a.tf", 3, ["AWS002"]⟩] := by
    intro d
    simp only [List.mem_cons, List.not_mem_nil, or_false]
    tauto
  obtain ⟨hiff, horder⟩ := suppresses_iff_exists_directive
    [⟨"a.tf", 3, ["AWS001"]⟩, ⟨"a.tf", 3, []⟩, ⟨"a.tf", 3, ["AWS002"]⟩] f
  refine ⟨_, _, _, f, rfl, rfl, rfl, rfl, rfl, hsame, hiff.2 ⟨⟨"a.tf", 3, []⟩, by simp, ?_⟩, horder _ hsame⟩
  exact ⟨rfl, by decide, by decide, Or.inl rfl⟩

end Directives

end Ignore

end InfraAudit
