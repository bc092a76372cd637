import InfraAudit.Hcl.Document

/-!
# InfraAudit.Proofs.Hcl.Nesting — properly nested brackets

* `Nested`: every bracket is closed by one of its kind, innermost first.
* `NestedOver p`: nested, and every token outside brackets satisfies `p`.

The three readers of brackets see the same thing in a nested run:
* `expression_append`: the tokens of an expression are collected up to the first newline or closing brace outside.
* `closingIndex?_append`: the search for the closing bracket jumps over a nested run.
* `parts_append`: a nested run without separators outside brackets stays in one part.

And nested runs are all that brackets enclose:
* `enclosed?_eq_some_iff`: what is found enclosed by brackets is nested.
* `Nested.split`: where a nested run may be cut; `nested_insert_iff`: other tokens do not matter to it.
* `parts_glue`: what follows a nested run is cut at separators as it would be on its own.
-/

namespace InfraAudit.Hcl

/-- Whether a token opens or closes a bracket. -/
def Token.isBracket : Token → Bool
  | .opening _ | .closing _ => true
  | _ => false

/-- Brackets that are properly nested, each closed by one of its own kind. -/
inductive Nested : List Token → Prop
  | nil : Nested []
  | plain {t : Token} {ts : List Token} (ht : t.isBracket = false) (h : Nested ts) : Nested (t :: ts)
  | group {b : Bracket} {inner ts : List Token} (hi : Nested inner) (h : Nested ts) :
      Nested (.opening b :: (inner ++ .closing b :: ts))

/-- Properly nested brackets, outside of which every token satisfies `p`. -/
inductive NestedOver (p : Token → Prop) : List Token → Prop
  | nil : NestedOver p []
  | plain {t : Token} {ts : List Token} (ht : t.isBracket = false) (hp : p t) (h : NestedOver p ts) :
      NestedOver p (t :: ts)
  | group {b : Bracket} {inner ts : List Token} (hi : Nested inner) (h : NestedOver p ts) :
      NestedOver p (.opening b :: (inner ++ .closing b :: ts))

section Runs

theorem group_append {α : Type} (o c : α) (is rs ts : List α) :
    o :: (is ++ c :: rs) ++ ts = o :: (is ++ c :: (rs ++ ts)) := by
  simp

variable {p q : Token → Prop} {ts us : List Token}

theorem Nested.append (h : Nested ts) (hu : Nested us) : Nested (ts ++ us) := by
  induction h with
  | nil => exact hu
  | plain ht _ ih => exact .plain ht ih
  | group hi _ _ ih => simpa using Nested.group hi ih

theorem NestedOver.nested (h : NestedOver p ts) : Nested ts := by
  induction h with
  | nil => exact .nil
  | plain ht _ _ ih => exact .plain ht ih
  | group hi _ ih => exact .group hi ih

theorem NestedOver.mono (hpq : ∀ t, p t → q t) (h : NestedOver p ts) : NestedOver q ts := by
  induction h with
  | nil => exact .nil
  | plain ht hp _ ih => exact .plain ht (hpq _ hp) ih
  | group hi _ ih => exact .group hi ih

end Runs

/-! ### Brackets left open -/

/-- The tokens close the brackets in `unclosed`, innermost first, and hold nested runs in between. -/
inductive ClosesAll (p : Token → Prop) : List Bracket → List Token → Prop
  | nil {ts : List Token} (h : NestedOver p ts) : ClosesAll p [] ts
  | cons {b : Bracket} {unclosed : List Bracket} {inner ts : List Token} (hi : Nested inner)
      (h : ClosesAll p unclosed ts) : ClosesAll p (b :: unclosed) (inner ++ .closing b :: ts)

section Closes

variable {p : Token → Prop} {ts : List Token} {u : List Bracket}

theorem ClosesAll.plain {t : Token} (ht : t.isBracket = false) (hp : u = [] → p t) (h : ClosesAll p u ts) :
    ClosesAll p u (t :: ts) := by
  cases h with
  | nil h => exact .nil (.plain ht (hp rfl) h)
  | cons hi h => exact .cons (.plain ht hi) h

theorem ClosesAll.opening {b : Bracket} (h : ClosesAll p (b :: u) ts) : ClosesAll p u (.opening b :: ts) := by
  cases h with
  | cons hi h =>
    cases h with
    | nil h => exact .nil (.group hi h)
    | cons hj h => simpa using ClosesAll.cons (.group hi hj) h

end Closes

/-! ### Collecting an expression -/

section Expression

open Document

/-- What may follow an expression: a newline, a closing brace or the end of the text. -/
def EndsExpression : List PlacedToken → Prop
  | [] => True
  | t :: _ => t.token = .newline ∨ t.token = .closing .curly

variable {ts rest taken : List PlacedToken} {u : List (Bracket × Position)}

theorem expression_plain {t : PlacedToken} (ht : t.token.isBracket = false)
    (hn : u = [] → t.token ≠ .newline) :
    expression u (t :: ts) = (expression u ts).map fun (taken, rest) => (t :: taken, rest) := by
  cases u with
  | nil => cases h : t.token <;> simp_all [expression, Token.isBracket]
  | cons b u => cases h : t.token <;> simp_all [expression, Token.isBracket]

theorem expression_opening {t : PlacedToken} {b : Bracket} (ht : t.token = .opening b) :
    expression u (t :: ts) =
      (expression ((b, t.start) :: u) ts).map fun (taken, rest) => (t :: taken, rest) := by
  simp [expression, ht]

theorem expression_closing {t : PlacedToken} {b : Bracket} {p : Position} (ht : t.token = .closing b) :
    expression ((b, p) :: u) (t :: ts) = (expression u ts).map fun (taken, rest) => (t :: taken, rest) := by
  simp [expression, ht]

theorem expression_of_ends (h : EndsExpression ts) : expression [] ts = .ok ([], ts) := by
  cases ts with
  | nil => rfl
  | cons t ts => rcases h with h | h <;> simp [expression, h]

/-- A nested run of placed tokens that starts with an opening bracket, taken apart at its closing one. -/
theorem eq_group_of_map {b : Bracket} {inner us : List Token}
    (h : ts.map PlacedToken.token = .opening b :: (inner ++ .closing b :: us)) :
    ∃ o is c rs, ts = o :: (is ++ c :: rs) ∧ o.token = .opening b ∧ is.map PlacedToken.token = inner ∧
      c.token = .closing b ∧ rs.map PlacedToken.token = us := by
  obtain ⟨o, ms, rfl, ho, hm⟩ := List.map_eq_cons_iff.1 h
  obtain ⟨is, ns, rfl, hi, hn⟩ := List.map_eq_append_iff.1 hm
  obtain ⟨c, rs, rfl, hc, hr⟩ := List.map_eq_cons_iff.1 hn
  exact ⟨o, is, c, rs, rfl, ho, hi, hc, hr⟩

theorem expression_append_of_nested (h : Nested (taken.map PlacedToken.token)) (hu : u ≠ []) :
    expression u (taken ++ ts) = (expression u ts).map fun (more, rest) => (taken ++ more, rest) := by
  generalize hl : taken.map PlacedToken.token = l at h
  induction h generalizing taken u ts with
  | nil =>
    obtain rfl := List.map_eq_nil_iff.1 hl
    cases h : expression u ts <;> simp [Except.map, h]
  | plain ht _ ih =>
    obtain ⟨t, ms, rfl, rfl, hm⟩ := List.map_eq_cons_iff.1 hl
    rw [List.cons_append, expression_plain ht (fun h => absurd h hu), ih hu hm]
    cases expression u ts <;> rfl
  | group _ _ ihi ih =>
    obtain ⟨o, is, c, rs, rfl, ho, hi, hc, hr⟩ := eq_group_of_map hl
    rw [group_append, expression_opening ho, ihi (List.cons_ne_nil _ _) hi, expression_closing hc, ih hu hr]
    cases expression u ts <;> simp [Except.map]

/-- An expression reaches to the first newline or closing brace outside of its brackets. -/
theorem expression_append (h : NestedOver (· ≠ .newline) (taken.map PlacedToken.token))
    (hr : EndsExpression rest) : expression [] (taken ++ rest) = .ok (taken, rest) := by
  generalize hl : taken.map PlacedToken.token = l at h
  induction h generalizing taken with
  | nil =>
    obtain rfl := List.map_eq_nil_iff.1 hl
    exact expression_of_ends hr
  | plain ht hp _ ih =>
    obtain ⟨t, ms, rfl, rfl, hm⟩ := List.map_eq_cons_iff.1 hl
    rw [List.cons_append, expression_plain ht (fun _ => hp), ih hm]
    rfl
  | group hi _ ih =>
    obtain ⟨o, is, c, rs, rfl, ho, rfl, hc, hm⟩ := eq_group_of_map hl
    rw [group_append, expression_opening ho, expression_append_of_nested hi (List.cons_ne_nil _ _),
      expression_closing hc, ih hm]
    simp [Except.map]

/-- What is collected closes the brackets that were open, and ends where an expression may end. -/
theorem closesAll_of_expression (h : expression u ts = .ok (taken, rest)) :
    ts = taken ++ rest ∧ ClosesAll (· ≠ .newline) (u.map Prod.fst) (taken.map PlacedToken.token) ∧
      EndsExpression rest := by
  induction ts generalizing u taken with
  | nil =>
    cases u with
    | nil =>
      cases h
      exact ⟨rfl, .nil .nil, trivial⟩
    | cons b u => cases h
  | cons t ts ih =>
    -- one more token in front of what the rest gives, for whatever brackets are open behind it
    have more (u' : List (Bracket × Position))
        (hu : ∀ us : List Token, ClosesAll (· ≠ .newline) (u'.map Prod.fst) us →
          ClosesAll (· ≠ .newline) (u.map Prod.fst) (t.token :: us))
        (h : (expression u' ts).map (fun (taken, rest) => (t :: taken, rest)) = .ok (taken, rest)) :
        t :: ts = taken ++ rest ∧ ClosesAll (· ≠ .newline) (u.map Prod.fst) (taken.map PlacedToken.token) ∧
          EndsExpression rest := by
      obtain ⟨⟨taken', rest'⟩, hx, he⟩ := eq_ok_of_map h
      simp only [Prod.mk.injEq] at he
      obtain ⟨rfl, rfl⟩ := he
      obtain ⟨rfl, hc, hr⟩ := ih hx
      exact ⟨rfl, hu _ hc, hr⟩
    cases hb : t.token.isBracket with
    | false =>
      by_cases hn : u = [] ∧ t.token = .newline
      · obtain ⟨rfl, ht⟩ := hn
        simp only [expression, ht] at h
        cases h
        exact ⟨rfl, .nil .nil, .inl ht⟩
      · have hn' : u = [] → t.token ≠ .newline := fun hu ht => hn ⟨hu, ht⟩
        rw [expression_plain hb hn'] at h
        exact more u (fun us => .plain hb fun hu => hn' (List.map_eq_nil_iff.1 hu)) h
    | true =>
      cases ht : t.token with
      | opening b =>
        rw [expression_opening ht] at h
        exact more ((b, t.start) :: u) (fun us hc => ht ▸ .opening hc) h
      | closing b =>
        cases u with
        | nil =>
          cases b <;> simp only [expression, ht] at h <;> cases h
          exact ⟨rfl, .nil .nil, .inr ht⟩
        | cons o u =>
          obtain ⟨o, p⟩ := o
          by_cases ho : o = b
          · subst ho
            rw [expression_closing ht] at h
            exact more u (fun us hc => ht ▸ .cons .nil hc) h
          · simp [expression, ht, ho] at h
      | _ => simp [Token.isBracket, ht] at hb

end Expression

/-! ### Searching for the closing bracket -/

section Closing

open Expression

variable {inner ts : List Token} {u : List Bracket}

theorem closingIndex?_plain {t : Token} (ht : t.isBracket = false) :
    closingIndex? u (t :: ts) = (closingIndex? u ts).map (· + 1) := by
  cases t <;> simp_all [closingIndex?, Token.isBracket]

theorem closingIndex?_append (h : Nested inner) (hu : u ≠ []) :
    closingIndex? u (inner ++ ts) = (closingIndex? u ts).map (· + inner.length) := by
  induction h generalizing u ts with
  | nil => simp
  | plain ht _ ih =>
    rw [List.cons_append, closingIndex?_plain ht, ih hu]
    simp [Option.map_map, Function.comp_def, Nat.add_assoc]
  | @group b inner' us _ _ ihi ih =>
    obtain ⟨o, u, rfl⟩ := List.exists_cons_of_ne_nil hu
    have h2 : closingIndex? (b :: o :: u) (.closing b :: (us ++ ts)) =
        (closingIndex? (o :: u) (us ++ ts)).map (· + 1) := by simp [closingIndex?]
    rw [group_append, closingIndex?, ihi (List.cons_ne_nil _ _), h2, ih (List.cons_ne_nil _ _)]
    simp only [Option.map_map, Function.comp_def, List.length_cons, List.length_append]
    congr 1
    funext n
    omega

/-- A nested run between brackets of one kind is enclosed by them. -/
theorem enclosed?_group (h : Nested inner) (b : Bracket) :
    enclosed? (.opening b :: (inner ++ [.closing b])) = some (b, inner) := by
  have h1 : closingIndex? [b] (inner ++ [.closing b]) = some inner.length := by
    rw [closingIndex?_append h (List.cons_ne_nil _ _)]
    simp [closingIndex?]
  simp [enclosed?, h1]

/-- What stands before the token that closes the last of the open brackets closes the others. -/
theorem closesAll_of_closingIndex? {b : Bracket} {n : Nat} (h : closingIndex? (u ++ [b]) ts = some n) :
    ∃ inner rest, ts = inner ++ .closing b :: rest ∧ inner.length = n ∧ ClosesAll (fun _ => True) u inner := by
  induction ts generalizing u n with
  | nil => simp [closingIndex?] at h
  | cons t ts ih =>
    -- one more token in front of what the rest gives, for whatever brackets are open behind it
    have more {v : List Bracket} (hv : ∀ us : List Token, ClosesAll (fun _ => True) v us →
          ClosesAll (fun _ => True) u (t :: us)) (h : (closingIndex? (v ++ [b]) ts).map (· + 1) = some n) :
        ∃ inner rest, t :: ts = inner ++ .closing b :: rest ∧ inner.length = n ∧
          ClosesAll (fun _ => True) u inner := by
      obtain ⟨m, hm, rfl⟩ := Option.map_eq_some_iff.1 h
      obtain ⟨inner, rest, rfl, rfl, hc⟩ := ih hm
      exact ⟨t :: inner, rest, rfl, rfl, hv _ hc⟩
    cases hb : t.isBracket with
    | false =>
      rw [closingIndex?_plain hb] at h
      exact more (fun us => .plain hb fun _ => trivial) h
    | true =>
      cases t with
      | opening k =>
        rw [closingIndex?] at h
        exact more (v := k :: u) (fun us hc => .opening hc) h
      | closing k =>
        cases u with
        | nil =>
          rw [List.nil_append, closingIndex?, Option.ite_none_right_eq_some] at h
          obtain ⟨rfl, hn⟩ := h
          exact ⟨[], ts, rfl, Option.some.inj hn, .nil .nil⟩
        | cons o u =>
          -- one more bracket is open behind the innermost one
          obtain ⟨o', v, hu⟩ : ∃ o' v, u ++ [b] = o' :: v :=
            List.exists_cons_of_ne_nil (List.append_ne_nil_of_right_ne_nil u (List.cons_ne_nil b []))
          rw [List.cons_append, hu, closingIndex?, ← hu, Option.ite_none_right_eq_some] at h
          · obtain ⟨rfl, h⟩ := h
            exact more (fun us hc => .cons .nil hc) h
          · simp
      | _ => simp [Token.isBracket] at hb

/-- What is enclosed by brackets is nested. -/
theorem enclosed?_eq_some_iff {b : Bracket} :
    enclosed? ts = some (b, inner) ↔ Nested inner ∧ ts = .opening b :: (inner ++ [.closing b]) := by
  constructor
  · intro h
    unfold enclosed? at h
    split at h
    · next k us =>
      simp only [Option.ite_none_right_eq_some, Option.some.injEq, Prod.mk.injEq] at h
      obtain ⟨hc, rfl, rfl⟩ := h
      obtain ⟨inner, rest, rfl, hl, hn⟩ := closesAll_of_closingIndex? (u := []) hc
      obtain rfl : rest = [] := by
        simp only [List.length_append, List.length_cons] at hl
        exact List.length_eq_zero_iff.1 (by omega)
      cases hn with
      | nil hn => exact ⟨by simpa using hn.nested, by simp⟩
    · cases h
  · rintro ⟨hn, rfl⟩
    exact enclosed?_group hn b

end Closing

/-! ### Nested runs cut in two -/

section Split

variable {t : Token} {a b : List Token}

/-- A nested run that is cut in two is cut outside of its brackets, or inside of one of its outermost ones. -/
theorem Nested.split (h : Nested (a ++ b)) :
    (Nested a ∧ Nested b) ∨ ∃ a₀ k a₁ b₁ b₀, a = a₀ ++ .opening k :: a₁ ∧ b = b₁ ++ .closing k :: b₀ ∧
      Nested a₀ ∧ Nested (a₁ ++ b₁) ∧ Nested b₀ := by
  generalize hs : a ++ b = s at h
  induction h generalizing a with
  | nil =>
    obtain ⟨rfl, rfl⟩ := List.append_eq_nil_iff.1 hs
    exact .inl ⟨.nil, .nil⟩
  | @plain t ts ht h ih =>
    rcases List.append_eq_cons_iff.1 hs with ⟨rfl, rfl⟩ | ⟨a', rfl, hs'⟩
    · exact .inl ⟨.nil, .plain ht h⟩
    · rcases ih hs'.symm with ⟨ha, hb⟩ | ⟨a₀, k, a₁, b₁, b₀, rfl, rfl, h0, h1, h2⟩
      · exact .inl ⟨.plain ht ha, hb⟩
      · exact .inr ⟨t :: a₀, k, a₁, b₁, b₀, rfl, rfl, .plain ht h0, h1, h2⟩
  | @group k inner ts hi h _ ih =>
    rcases List.append_eq_cons_iff.1 hs with ⟨rfl, rfl⟩ | ⟨a', rfl, hs'⟩
    · exact .inl ⟨.nil, .group hi h⟩
    -- the cut is behind the bracket, or before its closing token
    rcases List.append_eq_append_iff.1 hs' with ⟨w, rfl, hw⟩ | ⟨w, rfl, rfl⟩
    · rcases List.append_eq_cons_iff.1 hw.symm with ⟨rfl, rfl⟩ | ⟨w', rfl, hw'⟩
      · rw [List.append_nil]
        exact .inr ⟨[], k, inner, [], ts, rfl, rfl, .nil, by rwa [List.append_nil], h⟩
      · rcases ih hw'.symm with ⟨ha, hb⟩ | ⟨a₀, k', a₁, b₁, b₀, rfl, rfl, h0, h1, h2⟩
        · exact .inl ⟨.group hi ha, hb⟩
        · exact .inr ⟨.opening k :: (inner ++ .closing k :: a₀), k', a₁, b₁, b₀, by simp, rfl, .group hi h0, h1, h2⟩
    · exact .inr ⟨[], k, a', w, ts, rfl, rfl, .nil, hi, h⟩

theorem nested_plain_iff (ht : t.isBracket = false) : Nested (t :: a) ↔ Nested a := by
  constructor
  · intro h
    cases h with
    | plain _ h => exact h
    | group => simp [Token.isBracket] at ht
  · exact .plain ht

/-- A token that is no bracket can be put into a nested run, and taken out of it. -/
theorem nested_insert_iff (ht : t.isBracket = false) : Nested (a ++ t :: b) ↔ Nested (a ++ b) := by
  induction hn : (a ++ b).length using Nat.strongRecOn generalizing a b with
  | ind n ih =>
    -- inside of a bracket there are fewer tokens
    have inside {a₀ a₁ b₁ b₀ : List Token} {k : Bracket} (ha : a = a₀ ++ .opening k :: a₁)
        (hb : b = b₁ ++ .closing k :: b₀) : Nested (a₁ ++ t :: b₁) ↔ Nested (a₁ ++ b₁) := by
      refine ih (a₁ ++ b₁).length ?_ rfl
      rw [← hn, ha, hb]
      simp only [List.length_append, List.length_cons]
      omega
    have join {a₀ i b₀ : List Token} {k : Bracket} (h0 : Nested a₀) (h1 : Nested i) (h2 : Nested b₀) :
        Nested (a₀ ++ .opening k :: (i ++ .closing k :: b₀)) := h0.append (.group h1 h2)
    constructor
    · intro h
      rcases h.split with ⟨ha, hb⟩ | ⟨a₀, k, a₁, b₁, b₀, ha, hb, h0, h1, h2⟩
      · exact ha.append ((nested_plain_iff ht).1 hb)
      · rcases List.append_eq_cons_iff.1 hb.symm with ⟨-, hc⟩ | ⟨b₂, rfl, hb'⟩
        · obtain ⟨rfl, -⟩ := List.cons.inj hc
          simp [Token.isBracket] at ht
        · have h3 := join (k := k) h0 ((inside ha hb').1 h1) h2
          rw [ha, hb']
          simpa using h3
    · intro h
      rcases h.split with ⟨ha, hb⟩ | ⟨a₀, k, a₁, b₁, b₀, ha, hb, h0, h1, h2⟩
      · exact ha.append ((nested_plain_iff ht).2 hb)
      · have h3 := join (k := k) h0 ((inside ha hb).2 h1) h2
        rw [ha, hb]
        simpa using h3

end Split

/-! ### Cutting at separators -/

section Parts

open Expression

variable {sep : Token → Bool} {inner ts us : List Token}

/-- A list of parts with tokens put before its first part. -/
def ontoFirst (ts : List Token) : List (List Token) → List (List Token)
  | [] => [ts]
  | p :: ps => (ts ++ p) :: ps

theorem parts_ne_nil (d : Int) (ts : List Token) : parts sep d ts ≠ [] := by
  induction ts generalizing d with
  | nil => simp [parts]
  | cons t ts ih =>
    simp only [parts]
    split
    · simp
    · split <;> simp

theorem ontoFirst_nil (d : Int) (ts : List Token) : ontoFirst [] (parts sep d ts) = parts sep d ts := by
  cases h : parts sep d ts with
  | nil => exact absurd h (parts_ne_nil d ts)
  | cons p ps => rfl

theorem ontoFirst_append (ps : List (List Token)) :
    ontoFirst ts (ontoFirst us ps) = ontoFirst (ts ++ us) ps := by
  cases ps <;> simp [ontoFirst]

theorem parts_cons {d : Int} {t : Token} (h : depthAfter d t ≠ 0 ∨ sep t = false) :
    parts sep d (t :: ts) = ontoFirst [t] (parts sep (depthAfter d t) ts) := by
  have h1 : (depthAfter d t == 0 && sep t) = false := by
    rcases h with h | h <;> simp [h]
  simp only [parts, h1, Bool.false_eq_true, ite_false]
  cases parts sep (depthAfter d t) ts <;> rfl

theorem parts_separator {t : Token} (ht : t.isBracket = false) (h : sep t = true) :
    parts sep 0 (t :: ts) = [] :: parts sep 0 ts := by
  have h1 : depthAfter 0 t = 0 := by cases t <;> simp_all [depthAfter, Token.isBracket]
  simp [parts, h1, h]

theorem depthAfter_plain {t : Token} (ht : t.isBracket = false) (d : Int) : depthAfter d t = d := by
  cases t <;> simp_all [depthAfter, Token.isBracket]

/-- Inside brackets nothing separates. -/
theorem parts_append_inside (h : Nested inner) {d : Int} (hd : 0 < d) :
    parts sep d (inner ++ ts) = ontoFirst inner (parts sep d ts) := by
  induction h generalizing d ts with
  | nil => rw [List.nil_append, ontoFirst_nil]
  | plain ht _ ih =>
    rw [List.cons_append, parts_cons (.inl (by rw [depthAfter_plain ht]; omega)), depthAfter_plain ht, ih hd,
      ontoFirst_append]
    rfl
  | @group b inner' us _ _ ihi ih =>
    have h2 : depthAfter d (.opening b) = d + 1 := rfl
    have h3 : depthAfter (d + 1) (.closing b) = d := by simp [depthAfter]
    rw [group_append, parts_cons (.inl (by omega)), h2, ihi (by omega), parts_cons (.inl (by omega)), h3, ih hd]
    simp [ontoFirst_append]

/-- A bracket and what it encloses stay in one part. -/
theorem parts_group (hs : ∀ b, sep (.closing b) = false) (h : Nested inner) (b : Bracket) (ts : List Token) :
    parts sep 0 (.opening b :: (inner ++ .closing b :: ts)) =
      ontoFirst (.opening b :: (inner ++ [.closing b])) (parts sep 0 ts) := by
  have h2 : depthAfter 0 (.opening b) = 1 := rfl
  have h3 : depthAfter 1 (.closing b) = 0 := rfl
  rw [parts_cons (.inl (by rw [h2]; decide)), h2, parts_append_inside h (by decide), parts_cons (.inr (hs b)), h3]
  simp [ontoFirst_append]

/-- A nested run without separators outside of brackets stays in one part. -/
theorem parts_append (hs : ∀ b, sep (.closing b) = false) (h : NestedOver (sep · = false) inner) :
    parts sep 0 (inner ++ ts) = ontoFirst inner (parts sep 0 ts) := by
  induction h with
  | nil => rw [List.nil_append, ontoFirst_nil]
  | plain ht hp _ ih =>
    rw [List.cons_append, parts_cons (.inr hp), depthAfter_plain ht, ih, ontoFirst_append]
    rfl
  | @group b inner' us hi _ ih =>
    rw [group_append, parts_group hs hi, ih, ontoFirst_append]
    simp

/-- Two lists of parts, the last part of the first one joined with the first part of the second one. -/
def glue : List (List Token) → List (List Token) → List (List Token)
  | [], qs => qs
  | [p], qs => ontoFirst p qs
  | p :: q :: ps, qs => p :: glue (q :: ps) qs

theorem glue_cons {p : List Token} {ps qs : List (List Token)} (h : ps ≠ []) : glue (p :: ps) qs = p :: glue ps qs := by
  cases ps with
  | nil => exact absurd rfl h
  | cons q ps => rfl

theorem glue_concat (ps : List (List Token)) (l h : List Token) (qs : List (List Token)) :
    glue (ps ++ [l]) (h :: qs) = ps ++ (l ++ h) :: qs := by
  induction ps with
  | nil => rfl
  | cons p ps ih => rw [List.cons_append, glue_cons (by simp), ih, List.cons_append]

theorem glue_ontoFirst {ps qs : List (List Token)} (h : ps ≠ []) (hq : qs ≠ []) :
    glue (ontoFirst ts ps) qs = ontoFirst ts (glue ps qs) := by
  obtain ⟨q, qs, rfl⟩ := List.exists_cons_of_ne_nil hq
  match ps with
  | [] => exact absurd rfl h
  | [p] => simp [glue, ontoFirst]
  | p :: p' :: ps => rfl

/-- A nested run leaves the depth as it is, and what follows is cut as it would be on its own. -/
theorem parts_glue (hs : ∀ b, sep (.closing b) = false) (h : Nested ts) :
    parts sep 0 (ts ++ us) = glue (parts sep 0 ts) (parts sep 0 us) := by
  induction h with
  | nil => exact (ontoFirst_nil 0 us).symm
  | @plain t ts ht _ ih =>
    have hne : parts sep 0 ts ≠ [] := parts_ne_nil 0 ts
    cases hsep : sep t with
    | true => rw [List.cons_append, parts_separator ht hsep, parts_separator ht hsep, glue_cons hne, ih]
    | false =>
      rw [List.cons_append, parts_cons (.inr hsep), parts_cons (.inr hsep), depthAfter_plain ht,
        glue_ontoFirst hne (parts_ne_nil 0 us), ih]
  | @group k inner ts hi _ _ ih =>
    rw [group_append, parts_group hs hi, parts_group hs hi, ih,
      glue_ontoFirst (parts_ne_nil 0 ts) (parts_ne_nil 0 us)]

/-- Runs without separators outside of brackets, joined by a separator, are cut apart again. -/
theorem parts_intercalate (hs : ∀ b, sep (.closing b) = false) {t : Token} (ht : t.isBracket = false)
    (hsep : sep t = true) {es : List (List Token)} (hne : es ≠ []) (h : ∀ e ∈ es, NestedOver (sep · = false) e) :
    parts sep 0 ([t].intercalate es) = es := by
  induction es with
  | nil => exact absurd rfl hne
  | cons e es ih =>
    obtain ⟨he, hes⟩ := List.forall_mem_cons.1 h
    cases es with
    | nil =>
      have h1 : parts sep 0 (e ++ []) = ontoFirst e (parts sep 0 []) := parts_append hs he
      rw [List.append_nil] at h1
      rw [List.intercalate_singleton, h1]
      simp [parts, ontoFirst]
    | cons f es =>
      rw [List.intercalate_cons_cons, List.append_assoc, parts_append hs he, List.singleton_append,
        parts_separator ht hsep, ih (List.cons_ne_nil _ _) hes]
      simp [ontoFirst]

end Parts

end InfraAudit.Hcl
