import InfraAudit.Proofs.Hcl.Nesting

/-!
# InfraAudit.Proofs.Hcl.Tracking — one stack of brackets behind three readers

The reader of an expression keeps the open brackets with their places, the search for a closing bracket keeps their
kinds, and the cut at separators counts them.  Each step of each of the three is a step of one stack.

* `openAfter?`, `unclosed?`: the stack, over one token and over several; `nested_iff_unclosed?`: a run is nested if it
  leaves an empty stack empty.
* `exists_readsTo`, `searchesTo_of_unclosed?`, `foldl_depthAfter`: what each reader keeps behind what it has read.
* `Separated`: parts and the separators between them; `separated_parts`: a nested run is cut into such parts.
* `trackers_agree`: inside of every bracket of an expression the three readers agree.
-/

namespace InfraAudit.Hcl

open Document Expression

/-! ### The stack -/

/-- The brackets open behind a token, innermost first; none if the token closes a bracket that is not the innermost
open one. -/
def openAfter? (unclosed : List Bracket) : Token → Option (List Bracket)
  | .opening b => some (b :: unclosed)
  | .closing b => match unclosed with
    | [] => none
    | o :: outer => if o = b then some outer else none
  | _ => some unclosed

/-- The brackets open behind several tokens, if none of these closes a bracket that is not the innermost open one. -/
def unclosed? (unclosed : List Bracket) (ts : List Token) : Option (List Bracket) :=
  ts.foldlM openAfter? unclosed

section Stack

variable {t : Token} {ts us : List Token} {b : Bracket} {u v : List Bracket}

theorem openAfter?_plain (ht : t.isBracket = false) : openAfter? u t = some u := by
  cases t <;> simp_all [openAfter?, Token.isBracket]

theorem openAfter?_closing (b : Bracket) (u : List Bracket) : openAfter? (b :: u) (.closing b) = some u := by
  simp [openAfter?]

/-- All that one token can do to the stack. -/
theorem openAfter?_cases (h : openAfter? u t = some v) :
    (t.isBracket = false ∧ v = u) ∨ (∃ b, t = .opening b ∧ v = b :: u) ∨ ∃ b, t = .closing b ∧ u = b :: v := by
  cases hb : t.isBracket with
  | false => exact .inl ⟨rfl, Option.some.inj (h.symm.trans (openAfter?_plain hb))⟩
  | true =>
    cases t with
    | opening b => exact .inr (.inl ⟨b, rfl, (Option.some.inj h).symm⟩)
    | closing b =>
      cases u with
      | nil => cases h
      | cons o outer =>
        simp only [openAfter?, Option.ite_none_right_eq_some, Option.some.injEq] at h
        obtain ⟨rfl, rfl⟩ := h
        exact .inr (.inr ⟨o, rfl, rfl⟩)
    | _ => simp [Token.isBracket] at hb

theorem unclosed?_cons_iff :
    unclosed? u (t :: ts) = some v ↔ ∃ w, openAfter? u t = some w ∧ unclosed? w ts = some v := by
  rw [unclosed?, List.foldlM_cons]
  exact Option.bind_eq_some_iff

theorem unclosed?_append_iff :
    unclosed? u (ts ++ us) = some v ↔ ∃ w, unclosed? u ts = some w ∧ unclosed? w us = some v := by
  rw [unclosed?, List.foldlM_append]
  exact Option.bind_eq_some_iff

/-- Brackets that were open before make no difference to the tokens that close none of them. -/
theorem openAfter?_around (h : openAfter? u t = some v) (w : List Bracket) : openAfter? (u ++ w) t = some (v ++ w) := by
  rcases openAfter?_cases h with ⟨ht, rfl⟩ | ⟨b, rfl, rfl⟩ | ⟨b, rfl, rfl⟩
  · exact openAfter?_plain ht
  · rfl
  · exact openAfter?_closing b (v ++ w)

theorem unclosed?_around (h : unclosed? u ts = some v) (w : List Bracket) : unclosed? (u ++ w) ts = some (v ++ w) := by
  induction ts generalizing u with
  | nil =>
    obtain rfl := Option.some.inj h
    rfl
  | cons t ts ih =>
    obtain ⟨x, hx, hrest⟩ := unclosed?_cons_iff.1 h
    exact unclosed?_cons_iff.2 ⟨x ++ w, openAfter?_around hx w, ih hrest⟩

/-- A nested run closes all brackets of its own, and leaves those around it open. -/
theorem unclosed?_of_nested (h : Nested ts) (u : List Bracket) : unclosed? u ts = some u := by
  induction h generalizing u with
  | nil => rfl
  | plain ht _ ih => exact unclosed?_cons_iff.2 ⟨u, openAfter?_plain ht, ih u⟩
  | @group b inner us _ _ ihi ih =>
    have hbehind : unclosed? (b :: u) (.closing b :: us) = some u :=
      unclosed?_cons_iff.2 ⟨u, openAfter?_closing b u, ih u⟩
    exact unclosed?_cons_iff.2 ⟨b :: u, rfl, unclosed?_append_iff.2 ⟨b :: u, ihi (b :: u), hbehind⟩⟩

theorem closesAll_of_unclosed? (h : unclosed? u ts = some []) : ClosesAll (fun _ => True) u ts := by
  induction ts generalizing u with
  | nil =>
    obtain rfl := Option.some.inj h
    exact .nil .nil
  | cons t ts ih =>
    obtain ⟨v, hv, hrest⟩ := unclosed?_cons_iff.1 h
    rcases openAfter?_cases hv with ⟨ht, rfl⟩ | ⟨b, rfl, rfl⟩ | ⟨b, rfl, rfl⟩
    · exact .plain ht (fun _ => trivial) (ih hrest)
    · exact .opening (ih hrest)
    · exact .cons .nil (ih hrest)

theorem nested_iff_unclosed? : Nested ts ↔ unclosed? [] ts = some [] := by
  constructor
  · exact fun h => unclosed?_of_nested h []
  · intro h
    cases closesAll_of_unclosed? h with
    | nil h => exact h.nested

/-- Every bracket that a nested run opens is closed in it by one of its kind, and what stands in between is nested. -/
theorem Nested.inside (h : Nested (ts ++ .opening b :: us)) :
    ∃ inner behind, us = inner ++ .closing b :: behind ∧ Nested inner := by
  obtain ⟨u, -, hu⟩ := unclosed?_append_iff.1 (nested_iff_unclosed?.1 h)
  obtain ⟨v, hv, hrest⟩ := unclosed?_cons_iff.1 hu
  obtain rfl := Option.some.inj hv
  cases closesAll_of_unclosed? hrest with
  | cons hi _ => exact ⟨_, _, rfl, hi⟩

end Stack

/-! ### The counter -/

section Readers

variable {t : Token} {ts read : List Token} {b : Bracket} {u v : List Bracket}

theorem depthAfter_length (h : openAfter? u t = some v) : depthAfter u.length t = v.length := by
  rcases openAfter?_cases h with ⟨ht, rfl⟩ | ⟨b, rfl, rfl⟩ | ⟨b, rfl, rfl⟩
  · exact depthAfter_plain ht _
  · simp [depthAfter]
  · simp [depthAfter]

/-- As long as no bracket is closed by one of another kind, the counter is the height of the stack. -/
theorem foldl_depthAfter (h : unclosed? u ts = some v) : ts.foldl depthAfter u.length = v.length := by
  induction ts generalizing u with
  | nil => rw [Option.some.inj h, List.foldl_nil]
  | cons t ts ih =>
    obtain ⟨w, hw, hrest⟩ := unclosed?_cons_iff.1 h
    rw [List.foldl_cons, depthAfter_length hw, ih hrest]

/-- Behind the tokens the cut at separators goes on at the given depth: the parts that are complete by then, and what
there is of the next one, do not depend on the tokens that follow. -/
def CutsTo (sep : Token → Bool) (read : List Token) (depth : Int) : Prop :=
  ∃ complete begun, ∀ more, parts sep 0 (read ++ more) = complete ++ ontoFirst begun (parts sep depth more)

theorem exists_parts_append (sep : Token → Bool) (d : Int) (read : List Token) :
    ∃ complete begun, ∀ more,
      parts sep d (read ++ more) = complete ++ ontoFirst begun (parts sep (read.foldl depthAfter d) more) := by
  induction read generalizing d with
  | nil => exact ⟨[], [], fun more => (ontoFirst_nil d more).symm⟩
  | cons t read ih =>
    obtain ⟨complete, begun, h⟩ := ih (depthAfter d t)
    by_cases hcut : depthAfter d t = 0 ∧ sep t = true
    · refine ⟨[] :: complete, begun, fun more => ?_⟩
      rw [List.cons_append, parts, h more]
      simp [hcut]
    · have hkeep : depthAfter d t ≠ 0 ∨ sep t = false := by
        by_cases hd : depthAfter d t = 0
        · exact .inr (Bool.eq_false_iff.2 fun hsep => hcut ⟨hd, hsep⟩)
        · exact .inl hd
      cases complete with
      | nil =>
        refine ⟨[], t :: begun, fun more => ?_⟩
        rw [List.cons_append, parts_cons hkeep, h more, List.nil_append, ontoFirst_append, List.singleton_append]
        rfl
      | cons p ps =>
        refine ⟨(t :: p) :: ps, begun, fun more => ?_⟩
        rw [List.cons_append, parts_cons hkeep, h more]
        rfl

/-- The cut goes on at the height of the stack, which is never less than 0. -/
theorem cutsTo_of_unclosed? (sep : Token → Bool) (h : unclosed? [] read = some v) : CutsTo sep read v.length := by
  have hdepth : read.foldl depthAfter 0 = v.length := foldl_depthAfter h
  obtain ⟨complete, begun, hparts⟩ := exists_parts_append sep 0 read
  exact ⟨complete, begun, hdepth ▸ hparts⟩

/-! ### The search for a closing bracket -/

/-- Behind the tokens the search for the bracket that closes `b` goes on with the given brackets open. -/
def SearchesTo (b : Bracket) (read : List Token) (unclosed : List Bracket) : Prop :=
  ∀ more, closingIndex? [b] (read ++ more) = (closingIndex? unclosed more).map (· + read.length)

theorem closingIndex?_cons (h : openAfter? u t = some v) :
    closingIndex? (u ++ [b]) (t :: ts) = (closingIndex? (v ++ [b]) ts).map (· + 1) := by
  rcases openAfter?_cases h with ⟨ht, rfl⟩ | ⟨k, rfl, rfl⟩ | ⟨k, rfl, rfl⟩
  · exact closingIndex?_plain ht
  · rw [closingIndex?, List.cons_append]
  · -- the bracket searched for is still open behind `k`
    obtain ⟨o, outer, ho⟩ : ∃ o outer, v ++ [b] = o :: outer :=
      List.exists_cons_of_ne_nil (List.append_ne_nil_of_right_ne_nil v (List.cons_ne_nil b []))
    rw [List.cons_append, ho]
    simp [closingIndex?]

theorem closingIndex?_append_of_unclosed? (h : unclosed? u read = some v) (more : List Token) :
    closingIndex? (u ++ [b]) (read ++ more) = (closingIndex? (v ++ [b]) more).map (· + read.length) := by
  induction read generalizing u with
  | nil =>
    obtain rfl := Option.some.inj h
    simp
  | cons t read ih =>
    obtain ⟨w, hw, hrest⟩ := unclosed?_cons_iff.1 h
    rw [List.cons_append, closingIndex?_cons hw, ih hrest, Option.map_map]
    rfl

/-- The search keeps the stack of what it has read, above the bracket that it is to close. -/
theorem searchesTo_of_unclosed? (b : Bracket) (h : unclosed? [] read = some v) : SearchesTo b read (v ++ [b]) :=
  closingIndex?_append_of_unclosed? h

end Readers

/-! ### The reader of an expression -/

section Reading

variable {t : PlacedToken} {ts read unread rest taken : List PlacedToken} {u : List (Bracket × Position)}

/-- Behind the tokens the reader of an expression goes on with the given brackets open. -/
def ReadsTo (read : List PlacedToken) (unclosed : List (Bracket × Position)) : Prop :=
  ∀ more, expression [] (read ++ more) = (expression unclosed more).map fun (taken, rest) => (read ++ taken, rest)

/-- A token that is taken into an expression is one step of the stack, and the reader goes on from there. -/
theorem exists_step_of_expression (h : expression u (t :: ts) = .ok (t :: taken, rest)) :
    ∃ v, openAfter? (u.map Prod.fst) t.token = some (v.map Prod.fst) ∧ expression v ts = .ok (taken, rest) ∧
      ∀ more, expression u (t :: more) = (expression v more).map fun (taken, rest) => (t :: taken, rest) := by
  -- what the rest of the run gives, once it is known how the reader goes on behind the token
  have hbehind {v : List (Bracket × Position)}
      (hv : ∀ more, expression u (t :: more) = (expression v more).map fun (taken, rest) => (t :: taken, rest)) :
      expression v ts = .ok (taken, rest) := by
    rw [hv] at h
    obtain ⟨x, hx, he⟩ := eq_ok_of_map h
    simp only [Prod.mk.injEq, List.cons.injEq, true_and] at he
    rw [hx, ← he.1, ← he.2]
  cases hb : t.token.isBracket with
  | false =>
    have hn : u = [] → t.token ≠ .newline := by
      rintro rfl ht
      simp [expression, ht] at h
    exact ⟨u, openAfter?_plain hb, hbehind fun _ => expression_plain hb hn, fun _ => expression_plain hb hn⟩
  | true =>
    cases ht : t.token with
    | opening b =>
      exact ⟨_, rfl, hbehind fun _ => expression_opening ht, fun _ => expression_opening ht⟩
    | closing b =>
      cases u with
      | nil => cases b <;> simp [expression, ht] at h
      | cons o outer =>
        obtain ⟨o, p⟩ := o
        by_cases ho : o = b
        · subst ho
          exact ⟨outer, openAfter?_closing o _, hbehind fun _ => expression_closing ht, fun _ => expression_closing ht⟩
        · simp [expression, ht, ho] at h
    | _ => simp [Token.isBracket, ht] at hb

theorem exists_expression_append (h : expression u (read ++ ts) = .ok (read ++ taken, rest)) :
    ∃ v, unclosed? (u.map Prod.fst) (read.map PlacedToken.token) = some (v.map Prod.fst) ∧
      ∀ more, expression u (read ++ more) = (expression v more).map fun (taken, rest) => (read ++ taken, rest) := by
  induction read generalizing u with
  | nil =>
    refine ⟨u, rfl, fun more => ?_⟩
    cases hm : expression u more <;> simp [Except.map, hm]
  | cons t read ih =>
    obtain ⟨w, hw, hrest, hstep⟩ := exists_step_of_expression h
    obtain ⟨v, hv, hread⟩ := ih hrest
    refine ⟨v, unclosed?_cons_iff.2 ⟨_, hw, hv⟩, fun more => ?_⟩
    rw [List.cons_append, hstep, hread]
    cases expression v more <;> rfl

/-- Wherever an expression is cut, the reader has the brackets of one stack open there. -/
theorem exists_readsTo (h : expression [] ts = .ok (read ++ unread, rest)) :
    ∃ v, unclosed? [] (read.map PlacedToken.token) = some (v.map Prod.fst) ∧ ReadsTo read v := by
  obtain ⟨rfl, -, -⟩ := closesAll_of_expression h
  rw [List.append_assoc] at h
  exact exists_expression_append h

end Reading

/-! ### The parts between separators -/

/-- Parts, and between each two of them one separator, put together again.  Each part has its own brackets closed, and
no separator outside of them. -/
inductive Separated (sep : Token → Bool) : List (List Token) → List Token → Prop
  | single {p : List Token} (hp : NestedOver (sep · = false) p) : Separated sep [p] p
  | cons {p ts : List Token} {ps : List (List Token)} {t : Token} (hp : NestedOver (sep · = false) p)
      (hb : t.isBracket = false) (ht : sep t = true) (h : Separated sep ps ts) : Separated sep (p :: ps) (p ++ t :: ts)

section Parts

variable {sep : Token → Bool} {ts q : List Token} {ps : List (List Token)}

theorem NestedOver.append {p : Token → Prop} {us : List Token} (h : NestedOver p ts) (hu : NestedOver p us) :
    NestedOver p (ts ++ us) := by
  induction h with
  | nil => exact hu
  | plain ht hp _ ih => exact .plain ht hp ih
  | group hi _ ih => simpa using NestedOver.group hi ih

theorem Separated.ontoFirst (hq : NestedOver (sep · = false) q) (h : Separated sep ps ts) :
    Separated sep (ontoFirst q ps) (q ++ ts) := by
  cases h with
  | single hp => exact .single (hq.append hp)
  | cons hp hb ht h =>
    rw [← List.append_assoc]
    exact .cons (hq.append hp) hb ht h

/-- Cut at its separators, a nested run falls into parts that have no bracket open. -/
theorem separated_parts (hs : ∀ b, sep (.closing b) = false) (h : Nested ts) : Separated sep (parts sep 0 ts) ts := by
  induction h with
  | nil => exact .single .nil
  | @plain t ts ht _ ih =>
    cases hsep : sep t with
    | true =>
      rw [parts_separator ht hsep]
      exact .cons .nil ht hsep ih
    | false =>
      rw [parts_cons (.inr hsep), depthAfter_plain ht]
      exact ih.ontoFirst (.plain ht hsep .nil)
  | @group b inner ts hi _ _ ih =>
    have hg : NestedOver (sep · = false) (.opening b :: (inner ++ [.closing b])) := .group hi .nil
    rw [parts_group hs hi]
    simpa using ih.ontoFirst hg

end Parts

/-! ### Inside of every bracket -/

section Inside

variable {ts taken rest before inner behind after read unread : List PlacedToken} {o c : PlacedToken} {b : Bracket}

/-- In an expression that starts with `before`, `read` behind its bracket `o` of kind `b` leaves the brackets `unclosed`
open: so say the stack of `read` alone, the counter, the cut at any separators, the search for the bracket that closes
`o`, and the reader of the expression, which has `o` and the brackets around it open as well. -/
structure Agree (before : List PlacedToken) (o : PlacedToken) (b : Bracket) (read : List PlacedToken)
    (unclosed : List Bracket) : Prop where
  stack : unclosed? [] (read.map PlacedToken.token) = some unclosed
  count : (read.map PlacedToken.token).foldl depthAfter 0 = unclosed.length
  cut : ∀ sep, CutsTo sep (read.map PlacedToken.token) unclosed.length
  search : SearchesTo b (read.map PlacedToken.token) (unclosed ++ [b])
  reader : ∃ outer v, unclosed? [] (before.map PlacedToken.token) = some outer ∧
    v.map Prod.fst = unclosed ++ b :: outer ∧ ReadsTo (before ++ o :: read) v

theorem exists_agree (h : expression [] ts = .ok (before ++ o :: (inner ++ c :: behind), rest))
    (ho : o.token = .opening b) (hi : Nested (inner.map PlacedToken.token)) (hr : inner = read ++ unread) :
    ∃ unclosed, Agree before o b read unclosed := by
  rw [nested_iff_unclosed?, hr, List.map_append] at hi
  obtain ⟨unclosed, hread, -⟩ := unclosed?_append_iff.1 hi
  have hcut : before ++ o :: (inner ++ c :: behind) = (before ++ o :: read) ++ (unread ++ c :: behind) := by simp [hr]
  obtain ⟨v, hv, hreads⟩ := exists_readsTo (hcut ▸ h)
  rw [List.map_append, List.map_cons, ho] at hv
  obtain ⟨outer, houter, hbehind⟩ := unclosed?_append_iff.1 hv
  obtain ⟨w, hw, hbehind⟩ := unclosed?_cons_iff.1 hbehind
  obtain rfl := Option.some.inj hw
  have hsame : some (v.map Prod.fst) = some (unclosed ++ b :: outer) :=
    hbehind.symm.trans (unclosed?_around hread (b :: outer))
  exact ⟨unclosed, hread, foldl_depthAfter hread, fun sep => cutsTo_of_unclosed? sep hread,
    searchesTo_of_unclosed? b hread, outer, v, houter, Option.some.inj hsame, hreads⟩

/-- Every bracket that an expression opens is closed in it by one of its kind, which the search finds whatever stands
behind it.  In between, brackets are nested again, and behind every token there the three readers have the same ones
open, and none at the end.  Cut at separators, what stands in between falls into parts that have no bracket open. -/
theorem trackers_agree (h : expression [] ts = .ok (taken, rest)) (htaken : taken = before ++ o :: after)
    (ho : o.token = .opening b) :
    ∃ inner c behind, after = inner ++ c :: behind ∧ c.token = .closing b ∧ Nested (inner.map PlacedToken.token) ∧
      (∀ more, closingIndex? [b] (inner.map PlacedToken.token ++ c.token :: more) = some inner.length) ∧
      (∀ read unread, inner = read ++ unread → ∃ unclosed, Agree before o b read unclosed) ∧
      (inner.map PlacedToken.token).foldl depthAfter 0 = 0 ∧
      ∀ sep : Token → Bool, (∀ k, sep (.closing k) = false) →
        Separated sep (parts sep 0 (inner.map PlacedToken.token)) (inner.map PlacedToken.token) := by
  subst htaken
  obtain ⟨-, hclosed, -⟩ := closesAll_of_expression h
  have hnested : Nested (before.map PlacedToken.token ++ .opening b :: after.map PlacedToken.token) := by
    cases hclosed with
    | nil hn => simpa [ho] using hn.nested
  obtain ⟨is, bs, hafter, hi⟩ := hnested.inside
  obtain ⟨inner, cs, rfl, rfl, hcs⟩ := List.map_eq_append_iff.1 hafter
  obtain ⟨c, behind, rfl, hc, -⟩ := List.map_eq_cons_iff.1 hcs
  have hstack : unclosed? [] (inner.map PlacedToken.token) = some [] := unclosed?_of_nested hi []
  refine ⟨inner, c, behind, rfl, hc, hi, fun more => ?_, fun read unread => exists_agree h ho hi,
    foldl_depthAfter hstack, fun sep hs => separated_parts hs hi⟩
  have hfound : closingIndex? [b] (.closing b :: more) = some 0 := by simp [closingIndex?]
  rw [hc, searchesTo_of_unclosed? b hstack, List.nil_append, hfound]
  simp

/-- The arguments in `f([1,], {})`: behind `[1` one bracket is open, and the comma outside of brackets cuts them in
two. -/
theorem trackers_agree_arguments :
    ∃ ts taken rest before after : List PlacedToken, ∃ o : PlacedToken,
      ts.map PlacedToken.token = [.identifier "f", .opening .round, .opening .square, .number "1", .comma,
        .closing .square, .comma, .opening .curly, .closing .curly, .closing .round, .newline] ∧
      expression [] ts = .ok (taken, rest) ∧ taken = before ++ o :: after ∧ o.token = .opening .round ∧
      ∃ inner c behind, after = inner ++ c :: behind ∧ c.token = .closing .round ∧ inner.length = 7 ∧
        Agree before o .round (inner.take 2) [.square] ∧
        Separated separatesItems
          [[.opening .square, .number "1", .comma, .closing .square], [.opening .curly, .closing .curly]]
          (inner.map PlacedToken.token) := by
  let place (t : Token) : PlacedToken := ⟨t, ⟨1, 1⟩, 1⟩
  let after : List PlacedToken := [.opening .square, .number "1", .comma, .closing .square, .comma, .opening .curly,
    .closing .curly, .closing .round].map place
  let ts : List PlacedToken := place (.identifier "f") :: place (.opening .round) :: (after ++ [place .newline])
  have h : expression [] ts = .ok (place (.identifier "f") :: place (.opening .round) :: after, [place .newline]) := rfl
  have htaken : place (.identifier "f") :: place (.opening .round) :: after =
      [place (.identifier "f")] ++ place (.opening .round) :: after := rfl
  obtain ⟨inner, c, behind, hafter, hc, -, hfound, hagree, -, hparts⟩ := trackers_agree h htaken rfl
  have hlength : inner.length = 7 := by
    have hsearch : closingIndex? [.round] (after.map PlacedToken.token) = some 7 := rfl
    rw [hafter, List.map_append, List.map_cons, hfound] at hsearch
    exact Option.some.inj hsearch
  have hinner : inner = after.take 7 := by rw [hafter, ← hlength, List.take_left]
  obtain ⟨unclosed, hu⟩ := hagree (inner.take 2) (inner.drop 2) (List.take_append_drop 2 inner).symm
  have hstack : some [.square] = some unclosed := by
    rw [← hu.stack, hinner]
    rfl
  have hcut := hparts separatesItems fun _ => rfl
  refine ⟨ts, _, _, [place (.identifier "f")], after, place (.opening .round), rfl, h, rfl, rfl, inner, c, behind,
    hafter, hc, hlength, ?_, ?_⟩
  · rwa [Option.some.inj hstack]
  · rw [hinner] at hcut ⊢
    exact hcut

end Inside

end InfraAudit.Hcl
