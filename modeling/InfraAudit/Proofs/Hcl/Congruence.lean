import InfraAudit.Proofs.Hcl.Composition
import Mathlib.Data.List.Forall2

/-!
# InfraAudit.Proofs.Hcl.Congruence — expressions of one value

Two expressions have one value if they are read alike at every level of brackets.

* `ReadAlike R`: one level, with the expressions one level further in related by `R`.
* `resolveStripped_eq_of_alike`: what is related has one value, if whatever is related is read alike.
* `resolveStripped_of_not_enclosed`: without brackets around them, several tokens have no value to speak of.
-/

namespace InfraAudit.Hcl.Expression

open InfraAudit.Text

section Lists

variable {α β γ ε : Type} {r : α → β → Prop} {l : List α} {m : List β}

theorem mapM_eq_of_forall₂ {f : α → Except ε γ} {g : β → Except ε γ} (h : List.Forall₂ r l m)
    (hfg : ∀ a ∈ l, ∀ b, r a b → f a = g b) : l.mapM f = m.mapM g := by
  induction h with
  | nil => rfl
  | cons hab _ ih =>
    obtain ⟨ha, hl⟩ := List.forall_mem_cons.1 hfg
    rw [List.mapM_cons, List.mapM_cons, ha _ hab, ih hl]

theorem takeWhile_of_forall₂ {p : α → Bool} {q : β → Bool} (h : List.Forall₂ r l m)
    (hpq : ∀ a b, r a b → p a = q b) : List.Forall₂ r (l.takeWhile p) (m.takeWhile q) := by
  induction h with
  | nil => exact .nil
  | @cons a b _ _ hab _ ih =>
    rw [List.takeWhile_cons, List.takeWhile_cons, hpq a b hab]
    cases q b with
    | true => exact .cons hab ih
    | false => exact .nil

theorem all_of_forall₂ {p : α → Bool} {q : β → Bool} (h : List.Forall₂ r l m) (hpq : ∀ a b, r a b → p a = q b) :
    l.all p = m.all q := by
  induction h with
  | nil => rfl
  | cons hab _ ih => rw [List.all_cons, List.all_cons, hpq _ _ hab, ih]

theorem isSome_of_rel {x : Option α} {y : Option β} (h : Option.Rel r x y) : x.isSome = y.isSome := by
  cases h <;> rfl

end Lists

/-- Two expressions are read alike if both have the same value, or if they are enclosed by the same brackets and the
same is in there, part for part, up to related expressions. -/
inductive ReadAlike (R : List Token → List Token → Prop) (ts us : List Token) : Prop
  | same (h : resolveStripped ts = resolveStripped us)
  | round {i j : List Token} (ht : enclosed? ts = some (.round, i)) (hu : enclosed? us = some (.round, j))
      (h : R (stripNewlines i) (stripNewlines j))
  | square {i j : List Token} (ht : enclosed? ts = some (.square, i)) (hu : enclosed? us = some (.square, j))
      (hempty : (stripNewlines i).isEmpty = (stripNewlines j).isEmpty)
      (hfor : isFor (stripNewlines i) = isFor (stripNewlines j))
      (h : List.Forall₂ (fun q r => q.isEmpty = r.isEmpty ∧ R q r) (strippedParts separatesItems i)
        (strippedParts separatesItems j))
  | curly {i j : List Token} (ht : enclosed? ts = some (.curly, i)) (hu : enclosed? us = some (.curly, j))
      (hfor : isFor (stripNewlines i) = isFor (stripNewlines j))
      (h : List.Forall₂ (fun q r => Option.Rel (fun e f => e.1 = f.1 ∧ R e.2 f.2) (entryOf? q) (entryOf? r))
        (entryParts i) (entryParts j))

/-- If related expressions are read alike, they have the same value. -/
theorem resolveStripped_eq_of_alike {R : List Token → List Token → Prop} (hR : ∀ ts us, R ts us → ReadAlike R ts us)
    {ts us : List Token} (h : R ts us) : resolveStripped ts = resolveStripped us := by
  induction hn : ts.length using Nat.strongRecOn generalizing ts us with
  | ind n ih =>
    have shorter {qs rs : List Token} (hl : qs.length < ts.length) (h : R qs rs) :
        resolveStripped qs = resolveStripped rs := ih qs.length (hn ▸ hl) h rfl
    cases hR ts us h with
    | same h => exact h
    | round ht hu h =>
      rw [resolveStripped_enclosed ht, resolveStripped_enclosed hu]
      exact shorter (Nat.lt_of_le_of_lt (length_trim_le _ _) (length_enclosed?_lt ht)) h
    | @square i j ht hu hempty hfor h =>
      have hitems : List.Forall₂ (fun q r => q.isEmpty = r.isEmpty ∧ R q r) (items i) (items j) :=
        takeWhile_of_forall₂ h fun q r hqr => by rw [hqr.1]
      have hvalues : (items i).mapM resolveStripped = (items j).mapM resolveStripped :=
        mapM_eq_of_forall₂ hitems fun q hq r hqr =>
          shorter (Nat.lt_of_le_of_lt (length_of_mem_items hq) (length_enclosed?_lt ht)) hqr.2
      have hcomplete : itemsComplete i = itemsComplete j := by
        rw [itemsComplete, itemsComplete, h.length_eq, hitems.length_eq]
      rw [resolveStripped_enclosed ht, resolveStripped_enclosed hu]
      simp only [hempty, hfor, hvalues, hcomplete]
    | @curly i j ht hu hfor h =>
      have hentries : List.Forall₂ (fun e f => e.1 = f.1 ∧ R e.2 f.2) (entries i) (entries j) :=
        List.rel_filterMap (fun _ _ => id) (takeWhile_of_forall₂ h fun _ _ => isSome_of_rel)
      have hcomplete : entriesComplete i = entriesComplete j := all_of_forall₂ h fun _ _ => isSome_of_rel
      rw [resolveStripped_enclosed ht, resolveStripped_enclosed hu]
      simp only [hfor, hcomplete]
      split
      · rfl
      · congr 1
        refine mapM_eq_of_forall₂ hentries fun e he f hef => ?_
        have hv := shorter (Nat.lt_of_le_of_lt (length_of_mem_entries he) (length_enclosed?_lt ht)) hef.2
        simp only [hef.1, hv]

/-- Several tokens that are not enclosed by brackets are known only as a number with its sign. -/
theorem resolveStripped_of_not_enclosed {ts : List Token} (h : enclosed? ts = none) (hlen : 2 ≤ ts.length)
    (hneg : ∀ digits, ts ≠ [.operator "-", .number digits]) : resolveStripped ts = .ok .unresolved := by
  rw [resolveStripped.eq_def]
  split
  · rfl
  · simp at hlen
  · exact absurd rfl (hneg _)
  · split
    · rfl
    all_goals simp_all

end InfraAudit.Hcl.Expression
