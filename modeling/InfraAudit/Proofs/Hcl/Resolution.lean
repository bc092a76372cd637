import InfraAudit.Proofs.Hcl.Nesting
import Mathlib.Data.List.TakeWhile

/-!
# InfraAudit.Proofs.Hcl.Resolution — values of expressions

* `resolveStripped_enclosed`: the value of what stands between brackets, from its parts.
* `Token.Readable`: a token that is no integer literal of too many digits.  `resolve_ok`: expressions of readable
  tokens have values.
* `trim_around`, `trim_append_left`, `trim_append_right`: what is left between the newlines at both ends.
-/

namespace InfraAudit.Hcl

open InfraAudit.Decimal InfraAudit.Text

/-- A token that is no integer literal of more digits than can be read. -/
def Token.Readable : Token → Prop
  | .number literal => (∀ c ∈ literal.toList, c ≠ '.' ∧ c ≠ 'e' ∧ c ≠ 'E') → literal.length ≤ digitLimit
  | _ => True

theorem ofLiteral_ok {literal : String} (h : Token.Readable (.number literal)) :
    ∃ n, Numeral.ofLiteral literal = .ok n := by
  by_cases hr : (literal.toList.any fun c => c == '.' || c == 'e' || c == 'E') = true
  · exact ⟨.real (Numeral.realOf literal.toList), by simp only [Numeral.ofLiteral, hr, ite_true]⟩
  · have hi : ∀ c ∈ literal.toList, c ≠ '.' ∧ c ≠ 'e' ∧ c ≠ 'E' := by
      intro c hc
      have : ¬ (c == '.' || c == 'e' || c == 'E') = true := fun he => hr (List.any_eq_true.2 ⟨c, hc, he⟩)
      simpa [and_assoc] using this
    have hl : ¬ digitLimit < literal.toList.length := by
      have := h hi
      rw [String.length_toList]
      omega
    refine ⟨.integer (decimalValue literal.toList), ?_⟩
    simp only [Numeral.ofLiteral, hr, hl, ite_false, Bool.false_eq_true]

namespace Expression

/-! ### One level of brackets -/

section Levels

variable {ts inner : List Token} {x : Bracket × List Token}

theorem opening_of_enclosed? (h : enclosed? ts = some x) : ∃ b t us, ts = .opening b :: t :: us := by
  unfold enclosed? at h
  split at h
  · next b us =>
    cases us with
    | nil => simp [closingIndex?] at h
    | cons t us => exact ⟨b, t, us, rfl⟩
  · cases h

theorem mapM_attach_entries (inner : List Token) :
    ((entries inner).attach.mapM fun ⟨(key, q), _⟩ => return (key, ← resolveStripped q)) =
      (entries inner).mapM fun (key, q) => return (key, ← resolveStripped q) := by
  rw [List.mapM_subtype fun _ _ => rfl, List.unattach_attach]
  rfl

/-- Tokens inside a bracket are neither a single token nor a number with its sign. -/
theorem resolveStripped_enclosed (h : enclosed? ts = some x) :
    resolveStripped ts =
      match x with
      | (.round, inner) => resolveStripped (stripNewlines inner)
      | (.square, inner) =>
        if (stripNewlines inner).isEmpty then .ok (.list [])
        else if isFor (stripNewlines inner) then .ok .unresolved
        else do
          let values ← (items inner).mapM resolveStripped
          return if itemsComplete inner then .list values else .unresolved
      | (.curly, inner) =>
        if isFor (stripNewlines inner) then .ok .unresolved
        else do
          let values ← (entries inner).mapM fun (key, q) => return (key, ← resolveStripped q)
          return if entriesComplete inner then .map (Keyed.ofPairs values) else .unresolved := by
  obtain ⟨b, t, us, rfl⟩ := opening_of_enclosed? h
  rw [resolveStripped]
  · split
    · next hn =>
      rw [h] at hn
      cases hn
    · next hn =>
      rw [h] at hn
      cases hn
      rfl
    · next hn =>
      rw [h] at hn
      cases hn
      simp
    · next inner hn =>
      rw [h] at hn
      cases hn
      rw [mapM_attach_entries]
  all_goals simp

end Levels

/-! ### Parts of an expression are sublists of it -/

section Sublists

variable {ts q inner : List Token}

theorem trim_sublist {α : Type} (p : α → Bool) (s : List α) : (trim p s).Sublist s := by
  have h : (((s.dropWhile p).reverse.dropWhile p).reverse).Sublist (s.dropWhile p).reverse.reverse :=
    (List.dropWhile_sublist p).reverse
  rw [List.reverse_reverse] at h
  exact h.trans (List.dropWhile_sublist p)

theorem sublist_of_mem_parts {sep : Token → Bool} {d : Int} (h : q ∈ parts sep d ts) : q.Sublist ts := by
  induction ts generalizing d q with
  | nil =>
    rw [parts, List.mem_singleton] at h
    exact h ▸ .slnil
  | cons t ts ih =>
    simp only [parts] at h
    split at h
    · rcases List.mem_cons.1 h with rfl | h
      · exact List.nil_sublist _
      · exact (ih h).cons t
    · split at h
      · next hr => exact absurd hr (parts_ne_nil _ _)
      · next r rs hr =>
        rcases List.mem_cons.1 h with rfl | h
        · exact (ih (hr ▸ List.mem_cons_self)).cons_cons t
        · exact (ih (hr ▸ List.mem_cons_of_mem _ h)).cons t

theorem sublist_of_mem_strippedParts {sep : Token → Bool} (h : q ∈ strippedParts sep ts) : q.Sublist ts := by
  obtain ⟨r, hr, rfl⟩ := List.mem_map.1 h
  exact (trim_sublist _ _).trans (sublist_of_mem_parts hr)

theorem sublist_of_mem_items (h : q ∈ items inner) : q.Sublist inner :=
  sublist_of_mem_strippedParts ((List.takeWhile_sublist _).mem h)

theorem sublist_of_mem_entries {e : String × List Token} (h : e ∈ entries inner) : e.2.Sublist inner := by
  obtain ⟨q, hq, he⟩ := List.mem_filterMap.1 h
  have h1 := sublist_of_mem_strippedParts (List.mem_filter.1 ((List.takeWhile_sublist _).mem hq)).1
  unfold entryOf? at he
  split at he
  · simp only [Option.ite_none_right_eq_some, Option.map_eq_some_iff] at he
    obtain ⟨-, _, -, rfl⟩ := he
    exact ((List.sublist_cons_self _ _).trans (List.sublist_cons_self _ _)).trans h1
  · cases he

theorem sublist_of_enclosed? {x : Bracket × List Token} (h : enclosed? ts = some x) : x.2.Sublist ts := by
  unfold enclosed? at h
  split at h
  · simp only [Option.ite_none_right_eq_some, Option.some.injEq] at h
    obtain ⟨-, rfl⟩ := h
    exact (List.dropLast_sublist _).trans (List.sublist_cons_self _ _)
  · cases h

end Sublists

/-! ### Newlines at the ends -/

section Ends

variable {α : Type} {p : α → Bool} {a b : List α} {x y : α}

theorem trimStart_append_cons (hx : p x = false) (l a : List α) :
    trimStart p (l ++ x :: a) = trimStart p l ++ x :: a := by
  induction l with
  | nil => simp [trimStart, hx]
  | cons c l ih =>
    by_cases hc : p c = true
    · simpa [trimStart, hc] using ih
    · simp [trimStart, hc]

theorem trimEnd_append_cons (hy : p y = false) (b h : List α) : trimEnd p (b ++ y :: h) = b ++ y :: trimEnd p h := by
  have key := trimStart_append_cons hy h.reverse b.reverse
  simp only [trimStart] at key
  simp [trimEnd, key]

theorem trim_around (hx : p x = false) (l a : List α) : trim p (l ++ x :: a) = trimStart p l ++ x :: trimEnd p a := by
  rw [trim, trimStart_append_cons hx, trimEnd_append_cons hx]

theorem trim_between (hx : p x = false) (hy : p y = false) (l a b h : List α) :
    trim p ((l ++ x :: a) ++ (b ++ y :: h)) = (trimStart p l ++ x :: a) ++ (b ++ y :: trimEnd p h) := by
  have hl : (l ++ x :: a) ++ (b ++ y :: h) = l ++ x :: ((a ++ b) ++ y :: h) := by simp
  rw [hl, trim_around hx, trimEnd_append_cons hy]
  simp

theorem trim_eq_self {s : List α} (hh : ∀ c ∈ s.head?, p c = false) (hl : ∀ c ∈ s.getLast?, p c = false) :
    trim p s = s := by
  have key {s : List α} (h : ∀ c ∈ s.head?, p c = false) : s.dropWhile p = s := by
    cases s with
    | nil => rfl
    | cons c s => simp [h c rfl]
  have hr : ∀ c ∈ s.reverse.head?, p c = false := by rwa [List.head?_reverse]
  rw [trim, trimStart, trimEnd, key hh, key hr, List.reverse_reverse]

theorem trim_append_left (ha : ∀ c ∈ a, p c = true) : trim p (a ++ b) = trim p b := by
  rw [trim, trim, trimStart, trimStart, List.dropWhile_append_of_pos ha]

theorem trim_append_right (hb : ∀ c ∈ b, p c = true) : trim p (a ++ b) = trim p a := by
  by_cases ha : ∀ c ∈ a, p c = true
  · have hnil {s : List α} (hs : ∀ c ∈ s, p c = true) : trim p s = [] := by
      rw [trim, trimStart, List.dropWhile_eq_nil_iff.2 hs]
      rfl
    rw [trim_append_left ha, hnil ha, hnil hb]
  · simp only [not_forall, Bool.not_eq_true] at ha
    obtain ⟨x, hmem, hx⟩ := ha
    obtain ⟨l, a, rfl⟩ := List.append_of_mem hmem
    have hrev : ∀ c ∈ b.reverse, p c = true := fun c hc => hb c (List.mem_reverse.1 hc)
    rw [List.append_assoc, List.cons_append, trim_around hx, trim_around hx, trimEnd, trimEnd, List.reverse_append,
      List.dropWhile_append_of_pos hrev]

end Ends

theorem stripNewlines_of_mem {ts : List Token} (h : ∀ t ∈ ts, t ≠ .newline) : stripNewlines ts = ts :=
  trim_eq_self (fun t ht => by simpa [isNewline] using h t (List.mem_of_head? ht))
    fun t ht => by simpa [isNewline] using h t (List.mem_of_getLast? ht)

/-! ### Expressions have values -/

section Values

variable {ts : List Token}

theorem exists_mapM_ok {α β ε : Type} {f : α → Except ε β} {l : List α} (h : ∀ a ∈ l, ∃ b, f a = .ok b) :
    ∃ bs, l.mapM f = .ok bs := by
  induction l with
  | nil => exact ⟨[], rfl⟩
  | cons a l ih =>
    obtain ⟨b, hb⟩ := h a List.mem_cons_self
    obtain ⟨bs, hbs⟩ := ih fun c hc => h c (List.mem_cons_of_mem _ hc)
    exact ⟨b :: bs, by rw [List.mapM_cons, hb, hbs]; rfl⟩

theorem literal_ok {t : Token} (h : t.Readable) : ∃ v, literal t = .ok v := by
  unfold literal
  split
  · exact ⟨_, rfl⟩
  · exact ⟨_, rfl⟩
  · next digits =>
    obtain ⟨n, hn⟩ := ofLiteral_ok h
    exact ⟨.number n, by rw [hn]; rfl⟩
  · exact ⟨_, rfl⟩
  · exact ⟨_, rfl⟩

theorem resolveStripped_ok (h : ∀ t ∈ ts, t.Readable) : ∃ v, resolveStripped ts = .ok v := by
  induction hn : ts.length using Nat.strongRecOn generalizing ts with
  | ind n ih =>
    -- what is shorter and made of the same tokens has a value
    have shorter {us : List Token} (hs : us.Sublist ts) (hl : us.length < ts.length) :
        ∃ v, resolveStripped us = .ok v :=
      ih us.length (hn ▸ hl) (fun t ht => h t (hs.mem ht)) rfl
    cases hx : enclosed? ts with
    | none =>
      rw [resolveStripped.eq_def]
      split
      · exact ⟨_, rfl⟩
      · exact literal_ok (h _ (by simp))
      · next digits =>
        obtain ⟨m, hm⟩ := ofLiteral_ok (h (.number digits) (by simp))
        exact ⟨.number m.neg, by rw [hm]; rfl⟩
      · split
        · exact ⟨_, rfl⟩
        all_goals simp_all
    | some x =>
      have hs := sublist_of_enclosed? hx
      have hl := length_enclosed?_lt hx
      rw [resolveStripped_enclosed hx]
      obtain ⟨b, inner⟩ := x
      cases b with
      | round => exact shorter ((trim_sublist _ _).trans hs) (Nat.lt_of_le_of_lt (length_trim_le _ _) hl)
      | square =>
        simp only
        split
        · exact ⟨_, rfl⟩
        split
        · exact ⟨_, rfl⟩
        obtain ⟨vs, hvs⟩ := exists_mapM_ok (f := resolveStripped) (l := items inner) fun q hq =>
          shorter ((sublist_of_mem_items hq).trans hs) (Nat.lt_of_le_of_lt (length_of_mem_items hq) hl)
        exact ⟨_, by rw [hvs]; rfl⟩
      | curly =>
        simp only
        split
        · exact ⟨_, rfl⟩
        obtain ⟨vs, hvs⟩ := exists_mapM_ok (l := entries inner)
            (f := fun e => do return (e.1, ← resolveStripped e.2)) fun e he => by
          obtain ⟨v, hv⟩ := shorter ((sublist_of_mem_entries he).trans hs)
            (Nat.lt_of_le_of_lt (length_of_mem_entries he) hl)
          exact ⟨(e.1, v), by rw [hv]; rfl⟩
        exact ⟨_, by rw [hvs]; rfl⟩

/-- An expression of readable tokens has a value. -/
theorem resolve_ok (h : ∀ t ∈ ts, t.Readable) : ∃ v, resolve ts = .ok v :=
  resolveStripped_ok fun t ht => h t ((trim_sublist _ _).mem ht)

end Values

end Expression

end InfraAudit.Hcl
