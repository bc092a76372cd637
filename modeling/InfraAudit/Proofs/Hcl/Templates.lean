import InfraAudit.Proofs.Hcl.Congruence

/-!
# InfraAudit.Proofs.Hcl.Templates — strings with template sequences

A string with a template sequence has no value, whatever its text is.

* `Token.known`: the token without the text of such a string.
* `NestedOver.of_known`, `resolve_eq_of_known`: tokens of which the same is known are nested alike and have one value.
-/

namespace InfraAudit.Hcl

open InfraAudit.Text

/-! ### Tokens -/

/-- Whether the token is a string with a template sequence. -/
def Token.isTemplate : Token → Bool
  | .string _ true => true
  | _ => false

/-- What is known of a token: the text of a string with a template sequence is left out. -/
def Token.known : Token → Token
  | .string _ true => .string "" true
  | t => t

section Tokens

variable {α : Type} {p : Token → Prop} {t u : Token} {ts us : List Token}

/-- What does not look at the text of templates says the same of what is known. -/
theorem Token.apply_known {f : Token → α} (h : ∀ value, f (.string "" true) = f (.string value true)) (t : Token) :
    f t.known = f t := by
  cases t with
  | string value templated =>
    cases templated with
    | true => exact h value
    | false => rfl
  | _ => rfl

theorem Token.eq_of_known (h : u.known = t.known) (ht : t.isTemplate = false) : u = t := by
  have key (t : Token) : t.known = t ∨ t.isTemplate = true := by
    cases t with
    | string value templated => cases templated <;> simp [known, isTemplate]
    | _ => exact .inl rfl
  have hsame (t : Token) : t.known.isTemplate = t.isTemplate := apply_known (fun _ => rfl) t
  have hu : u.isTemplate = false := by rw [← hsame, h, hsame, ht]
  rw [(key t).resolve_right (by simp [ht]), (key u).resolve_right (by simp [hu])] at h
  exact h

theorem Token.isBracket_of_known (h : u.known = t.known) : u.isBracket = t.isBracket := by
  have hb (t : Token) : t.known.isBracket = t.isBracket := apply_known (fun _ => rfl) t
  rw [← hb u, h, hb]

/-- A bracket and what is behind it, in tokens of which the same is known. -/
theorem eq_cons_of_known (h : us.map Token.known = (t :: ts).map Token.known) (ht : t.isTemplate = false) :
    ∃ us', us = t :: us' ∧ us'.map Token.known = ts.map Token.known := by
  obtain ⟨u, us', rfl, hu, hs⟩ := List.map_eq_cons_iff.1 h
  exact ⟨us', by rw [Token.eq_of_known hu ht], hs⟩

theorem eq_group_of_known {b : Bracket} {inner : List Token}
    (h : us.map Token.known = (.opening b :: (inner ++ .closing b :: ts)).map Token.known) :
    ∃ inner' us', us = .opening b :: (inner' ++ .closing b :: us') ∧
      inner'.map Token.known = inner.map Token.known ∧ us'.map Token.known = ts.map Token.known := by
  obtain ⟨v, rfl, hv⟩ := eq_cons_of_known h rfl
  rw [List.map_append] at hv
  obtain ⟨inner', w, rfl, hi, hw⟩ := List.map_eq_append_iff.1 hv
  obtain ⟨us', rfl, hs⟩ := eq_cons_of_known hw rfl
  exact ⟨inner', us', rfl, hi, hs⟩

theorem Nested.of_known (h : Nested ts) (hu : us.map Token.known = ts.map Token.known) : Nested us := by
  induction h generalizing us with
  | nil =>
    obtain rfl := List.map_eq_nil_iff.1 hu
    exact .nil
  | plain ht _ ih =>
    obtain ⟨u, us', rfl, hut, hs⟩ := List.map_eq_cons_iff.1 hu
    exact .plain ((Token.isBracket_of_known hut).trans ht) (ih hs)
  | group _ _ ihi ih =>
    obtain ⟨inner', us', rfl, hi, hs⟩ := eq_group_of_known hu
    exact .group (ihi hi) (ih hs)

/-- Tokens of which the same is known are nested alike. -/
theorem NestedOver.of_known (hp : ∀ t u, u.known = t.known → p t → p u) (h : NestedOver p ts)
    (hu : us.map Token.known = ts.map Token.known) : NestedOver p us := by
  induction h generalizing us with
  | nil =>
    obtain rfl := List.map_eq_nil_iff.1 hu
    exact .nil
  | plain ht hpt _ ih =>
    obtain ⟨u, us', rfl, hut, hs⟩ := List.map_eq_cons_iff.1 hu
    exact .plain ((Token.isBracket_of_known hut).trans ht) (hp _ _ hut hpt) (ih hs)
  | group hi _ ih =>
    obtain ⟨inner', us', rfl, hinner, hs⟩ := eq_group_of_known hu
    exact .group (hi.of_known hinner) (ih hs)

end Tokens

/-! ### Expressions -/

namespace Expression

section Expressions

variable {i ts us : List Token}

theorem trim_map {α β : Type} {g : α → β} {p : β → Bool} {q : α → Bool} (h : ∀ a, p (g a) = q a) (s : List α) :
    trim p (s.map g) = (trim q s).map g := by
  obtain rfl : p ∘ g = q := funext h
  rw [trim, trim, trimEnd, trimEnd, trimStart, trimStart, List.dropWhile_map, ← List.map_reverse, List.dropWhile_map,
    ← List.map_reverse]

theorem stripNewlines_known (ts : List Token) :
    stripNewlines (ts.map Token.known) = (stripNewlines ts).map Token.known :=
  trim_map (Token.apply_known fun _ => rfl) ts

theorem closingIndex?_known (unclosed : List Bracket) (ts : List Token) :
    closingIndex? unclosed (ts.map Token.known) = closingIndex? unclosed ts := by
  induction ts generalizing unclosed with
  | nil => rfl
  | cons t ts ih =>
    cases t with
    | string value templated => cases templated <;> simp only [List.map_cons, Token.known, closingIndex?, ih]
    | closing b =>
      rcases unclosed with _ | ⟨o, _ | ⟨o', bs⟩⟩
      · rfl
      · rfl
      · simp only [List.map_cons, Token.known, closingIndex?, ih]
    | _ => simp only [List.map_cons, Token.known, closingIndex?, ih]

theorem enclosed?_known (ts : List Token) :
    enclosed? (ts.map Token.known) = (enclosed? ts).map fun x => (x.1, x.2.map Token.known) := by
  cases ts with
  | nil => rfl
  | cons t ts =>
    cases t with
    | opening b =>
      simp only [List.map_cons, Token.known, enclosed?, closingIndex?_known, List.length_map]
      split
      · rw [Option.map_some, List.map_dropLast]
      · rfl
    | string value templated => cases templated <;> rfl
    | _ => rfl

theorem parts_known {sep : Token → Bool} (hsep : ∀ t : Token, sep t.known = sep t) (d : Int) (ts : List Token) :
    parts sep d (ts.map Token.known) = (parts sep d ts).map (List.map Token.known) := by
  induction ts generalizing d with
  | nil => rfl
  | cons t ts ih =>
    have hdepth : depthAfter d t.known = depthAfter d t := Token.apply_known (fun _ => rfl) t
    simp only [List.map_cons, parts, hdepth, hsep, ih]
    split
    · rfl
    · cases parts sep (depthAfter d t) ts <;> rfl

theorem strippedParts_known {sep : Token → Bool} (hsep : ∀ t : Token, sep t.known = sep t) (ts : List Token) :
    strippedParts sep (ts.map Token.known) = (strippedParts sep ts).map (List.map Token.known) := by
  rw [strippedParts, strippedParts, parts_known hsep, List.map_map, List.map_map]
  exact List.map_congr_left fun q _ => stripNewlines_known q

theorem entryParts_known (ts : List Token) :
    entryParts (ts.map Token.known) = (entryParts ts).map (List.map Token.known) := by
  rw [entryParts, entryParts, strippedParts_known (Token.apply_known fun _ => rfl), List.filter_map]
  exact congrArg _ (List.filter_congr fun q _ => by cases q <;> rfl)

theorem isFor_known (ts : List Token) : isFor (ts.map Token.known) = isFor ts := by
  cases ts with
  | nil => rfl
  | cons t ts =>
    cases t with
    | string value templated => cases templated <;> rfl
    | _ => rfl

theorem entryOf?_known (ts : List Token) :
    entryOf? (ts.map Token.known) = (entryOf? ts).map fun e => (e.1, e.2.map Token.known) := by
  match ts with
  | [] => rfl
  | [t] => rfl
  | [t, u] => rfl
  | k :: sep :: t :: ts =>
    have hkey : key? k.known = key? k := Token.apply_known (fun _ => rfl) k
    have hsep : (sep.known = .equals ∨ sep.known = .colon) = (sep = .equals ∨ sep = .colon) :=
      Token.apply_known (f := fun t => t = .equals ∨ t = .colon) (fun _ => by simp) sep
    simp only [List.map_cons, entryOf?, hkey, hsep]
    split
    · cases key? k <;> rfl
    · rfl

/-- What is known of an expression is read as the expression is. -/
theorem readAlike_known (ts : List Token) :
    ReadAlike (fun us ts => us = ts.map Token.known) (ts.map Token.known) ts := by
  cases h : enclosed? ts with
  | none =>
    have hknown : enclosed? (ts.map Token.known) = none := by rw [enclosed?_known, h]; rfl
    refine .same ?_
    match ts with
    | [] => rfl
    | [t] =>
      have hliteral : literal t.known = literal t := Token.apply_known (fun _ => rfl) t
      rw [List.map_singleton, resolveStripped, resolveStripped, hliteral]
    | t :: u :: ts =>
      by_cases hneg : ∃ digits, t :: u :: ts = [.operator "-", .number digits]
      · obtain ⟨digits, hneg⟩ := hneg
        rw [hneg]
        rfl
      -- a number and its sign are known
      have hneg' (digits : String) : (t :: u :: ts).map Token.known ≠ [.operator "-", .number digits] := by
        intro he
        have hknown : (t :: u :: ts).map Token.known = [.operator "-", .number digits].map Token.known := he
        obtain ⟨us, hus, hu⟩ := eq_cons_of_known hknown rfl
        obtain ⟨vs, rfl, hv⟩ := eq_cons_of_known hu rfl
        obtain rfl := List.map_eq_nil_iff.1 hv
        exact hneg ⟨digits, hus⟩
      rw [resolveStripped_of_not_enclosed hknown (by simp) hneg',
        resolveStripped_of_not_enclosed h (by simp) fun digits he => hneg ⟨digits, he⟩]
  | some x =>
    obtain ⟨b, i⟩ := x
    have hknown : enclosed? (ts.map Token.known) = some (b, i.map Token.known) := by rw [enclosed?_known, h]; rfl
    cases b with
    | round => exact .round hknown h (stripNewlines_known i)
    | square =>
      refine .square hknown h ?_ ?_ ?_
      · rw [stripNewlines_known, List.isEmpty_map]
      · rw [stripNewlines_known, isFor_known]
      · rw [strippedParts_known (Token.apply_known fun _ => rfl), List.forall₂_map_left_iff]
        exact List.forall₂_same.2 fun q _ => ⟨List.isEmpty_map, rfl⟩
    | curly =>
      refine .curly hknown h ?_ ?_
      · rw [stripNewlines_known, isFor_known]
      · rw [entryParts_known, List.forall₂_map_left_iff]
        refine List.forall₂_same.2 fun q _ => ?_
        rw [entryOf?_known]
        cases entryOf? q with
        | none => exact .none
        | some e => exact .some ⟨rfl, rfl⟩

/-- The text of strings with template sequences does not matter to a value. -/
theorem resolve_map_known (ts : List Token) : resolve (ts.map Token.known) = resolve ts := by
  rw [resolve, resolve, stripNewlines_known]
  refine resolveStripped_eq_of_alike (R := fun us ts => us = ts.map Token.known) ?_ rfl
  rintro us ts rfl
  exact readAlike_known ts

theorem resolve_eq_of_known (h : us.map Token.known = ts.map Token.known) : resolve us = resolve ts := by
  rw [← resolve_map_known us, h, resolve_map_known]

end Expressions

end Expression

end InfraAudit.Hcl
