import InfraAudit.Proofs.Hcl.Congruence

/-!
# InfraAudit.Proofs.Hcl.Spacing — newlines that mean nothing

Newlines separate the entries of a map, and are noise everywhere else: at the ends of an expression, behind an opening
bracket, before a closing one, and on both sides of a comma.

* `Loose`: the places where a newline means nothing.
* `Spaced`: any number of newlines put at such places.
* `resolve_of_spaced`: they do not change the value of an expression.
-/

namespace InfraAudit.Hcl.Expression

open InfraAudit.Text

/-! ### Places for newlines -/

/-- Opening brackets and commas: behind them a newline means nothing. -/
def opensGap : Token → Bool
  | .opening _ | .comma => true
  | _ => false

/-- Closing brackets and commas: before them a newline means nothing. -/
def closesGap : Token → Bool
  | .closing _ | .comma => true
  | _ => false

/-- A place between tokens where a newline means nothing: there is nothing before it, or an opening bracket or a
comma; or there is nothing behind it, or a closing bracket or a comma. -/
def Loose (before after : List Token) : Prop :=
  (∀ t ∈ before.getLast?, opensGap t = true) ∨ ∀ t ∈ after.head?, closesGap t = true

/-- The second expression is the first one with newlines put where they mean nothing, one after the other. -/
inductive Spaced : List Token → List Token → Prop
  | refl (ts : List Token) : Spaced ts ts
  | insert {ts a b : List Token} (h : Spaced ts (a ++ b)) (hl : Loose a b) : Spaced ts (a ++ .newline :: b)

section Places

variable {a b l m h : List Token} {x y : Token}

theorem getLast?_append_cons (l : List Token) (x : Token) (a : List Token) :
    (l ++ x :: a).getLast? = (x :: a).getLast? := by
  rw [List.getLast?_append_of_ne_nil l (List.cons_ne_nil x a)]

theorem head?_append_cons (b : List Token) (y : Token) (h : List Token) : (b ++ y :: h).head? = (b ++ [y]).head? := by
  cases b <;> rfl

/-- What is further away on both sides does not matter to a place. -/
theorem loose_middle_iff : Loose (l ++ x :: a) (b ++ y :: h) ↔ Loose (x :: a) (b ++ [y]) := by
  rw [Loose, Loose, getLast?_append_cons, head?_append_cons]

end Places

/-! ### One newline -/

/-- The first expression is the second one, perhaps with a newline put inside of it where it means nothing. -/
inductive Loosened : List Token → List Token → Prop
  | same (ts : List Token) : Loosened ts ts
  | newline {a b : List Token} (ha : a ≠ []) (hb : b ≠ []) (h : Loose a b) : Loosened (a ++ .newline :: b) (a ++ b)

section Newlines

variable {ts us a b : List Token}

/-- A newline at an end is dropped, and one inside stays where it means nothing. -/
theorem loosened_stripNewlines (h : Loose a b) :
    Loosened (stripNewlines (a ++ .newline :: b)) (stripNewlines (a ++ b)) := by
  have hn : ∀ t ∈ [Token.newline], isNewline t = true := by simp [isNewline]
  by_cases ha : ∀ t ∈ a, isNewline t = true
  · have hb : stripNewlines (.newline :: b) = stripNewlines b := trim_append_left hn
    rw [stripNewlines, trim_append_left ha, ← stripNewlines, hb, stripNewlines, stripNewlines, trim_append_left ha]
    exact .same _
  by_cases hb : ∀ t ∈ b, isNewline t = true
  · have hb' : ∀ t ∈ Token.newline :: b, isNewline t = true := List.forall_mem_cons.2 ⟨rfl, hb⟩
    rw [stripNewlines, trim_append_right hb', stripNewlines, trim_append_right hb]
    exact .same _
  push Not at ha hb
  obtain ⟨x, hx, hpx⟩ := ha
  obtain ⟨y, hy, hpy⟩ := hb
  obtain ⟨l, a, rfl⟩ := List.append_of_mem hx
  obtain ⟨b, r, rfl⟩ := List.append_of_mem hy
  have hx : isNewline x = false := by simpa using hpx
  have hy : isNewline y = false := by simpa using hpy
  have hnew := trim_between hx hy l a (.newline :: b) r
  rw [List.cons_append] at hnew
  rw [stripNewlines, stripNewlines, hnew, trim_between hx hy, List.cons_append]
  exact .newline (by simp) (by simp) (loose_middle_iff.2 (loose_middle_iff.1 h))

theorem Loosened.isEmpty (h : Loosened us ts) : us.isEmpty = ts.isEmpty := by
  cases h with
  | same => rfl
  | @newline a b ha hb h => cases a <;> simp_all

theorem Loosened.isFor (h : Loosened us ts) : isFor us = isFor ts := by
  cases h with
  | same => rfl
  | @newline a b ha hb h =>
    obtain ⟨t, a, rfl⟩ := List.exists_cons_of_ne_nil ha
    cases t <;> rfl

end Newlines

/-! ### Parts with one more newline -/

section Parts

variable {sep : Token → Bool} {a b : List Token}

theorem exists_parts_concat (sep : Token → Bool) (ts : List Token) : ∃ ps l, parts sep 0 ts = ps ++ [l] := by
  rcases List.eq_nil_or_concat' (parts sep 0 ts) with h | h
  · exact absurd h (parts_ne_nil 0 ts)
  · exact h

theorem exists_parts_cons (sep : Token → Bool) (ts : List Token) : ∃ p qs, parts sep 0 ts = p :: qs :=
  List.exists_cons_of_ne_nil (parts_ne_nil 0 ts)

/-- A nested run ends with a comma, if what it ends with has a gap behind it. -/
theorem comma_of_opensGap {t : Token} (h : Nested (a ++ [t])) (ht : opensGap t = true) : t = .comma ∧ Nested a := by
  rcases h.split with ⟨ha, hb⟩ | ⟨a₀, k, a₁, b₁, b₀, -, hb, -⟩
  · generalize hs : [t] = s at hb
    cases hb with
    | nil => simp at hs
    | plain hp =>
      obtain ⟨rfl, -⟩ := List.cons.inj hs
      cases t <;> simp_all [opensGap, Token.isBracket]
    | group => simp at hs
  · rcases List.append_eq_cons_iff.1 hb.symm with ⟨-, hc⟩ | ⟨b₂, -, hb'⟩
    · obtain ⟨rfl, -⟩ := List.cons.inj hc
      simp [opensGap] at ht
    · simp at hb'

/-- A nested run starts with a comma, if what it starts with has a gap before it. -/
theorem comma_of_closesGap {t : Token} (h : Nested (t :: b)) (ht : closesGap t = true) : t = .comma := by
  cases h with
  | plain hp => cases t <;> simp_all [closesGap, Token.isBracket]
  | group => simp [closesGap] at ht

/-- A place outside of all brackets where a newline means nothing is at the end of a part. -/
theorem nil_of_loose (hs : ∀ b, sep (.closing b) = false) (hc : sep .comma = true) (ha : Nested a) (hb : Nested b)
    (h : Loose a b) {ps qs : List (List Token)} {l r : List Token} (hl : parts sep 0 a = ps ++ [l])
    (hr : parts sep 0 b = r :: qs) : l = [] ∨ r = [] := by
  rcases h with h | h
  · refine .inl ?_
    rcases List.eq_nil_or_concat' a with rfl | ⟨a, t, rfl⟩
    · have hlast := congrArg List.getLast? hl
      simpa [parts] using hlast.symm
    · obtain ⟨rfl, ha'⟩ := comma_of_opensGap ha (h t (by simp))
      obtain ⟨ps', l', hl'⟩ := exists_parts_concat sep a
      have hcomma : parts sep 0 [.comma] = [[], []] := parts_separator rfl hc
      rw [parts_glue hs ha', hl', hcomma, glue_concat] at hl
      have hlast := congrArg List.getLast? hl
      simpa using hlast.symm
  · refine .inr ?_
    cases b with
    | nil => exact (List.cons.inj hr).1.symm
    | cons t b =>
      obtain rfl := comma_of_closesGap hb (h t rfl)
      rw [parts_separator rfl hc] at hr
      exact (List.cons.inj hr).1.symm

/-- The parts around a bracket: what it encloses stays inside of one part. -/
theorem parts_around (hs : ∀ b, sep (.closing b) = false) {a₀ a₁ b₁ b₀ : List Token} (h0 : Nested a₀)
    (h1 : Nested (a₁ ++ b₁)) (k : Bracket) {ps qs : List (List Token)} {l r : List Token}
    (hl : parts sep 0 a₀ = ps ++ [l]) (hr : parts sep 0 b₀ = r :: qs) :
    parts sep 0 ((a₀ ++ .opening k :: a₁) ++ (b₁ ++ .closing k :: b₀)) =
      ps ++ ((l ++ .opening k :: a₁) ++ (b₁ ++ .closing k :: r)) :: qs := by
  have hg := parts_group hs h1 k b₀
  have hassoc : (a₀ ++ .opening k :: a₁) ++ (b₁ ++ .closing k :: b₀) =
      a₀ ++ .opening k :: ((a₁ ++ b₁) ++ .closing k :: b₀) := by simp
  rw [hassoc, parts_glue hs h0, hl, hg, hr, ontoFirst, glue_concat]
  simp

end Parts

/-! ### Lists and maps with one more newline -/

section Collections

variable {a b i : List Token}

theorem forall₂_same_or {α : Type} {r : α → α → Prop} (hr : ∀ z, r z z) {l m : List α} {x y : α} (h : r x y) :
    List.Forall₂ r (l ++ x :: m) (l ++ y :: m) :=
  List.rel_append (List.forall₂_same.2 fun z _ => hr z) (.cons h (List.forall₂_same.2 fun z _ => hr z))

/-- The items of a list with one more newline. -/
theorem strippedParts_loosened (hn : Nested (a ++ b)) (h : Loose a b) :
    List.Forall₂ (fun q r => q.isEmpty = r.isEmpty ∧ Loosened q r)
      (strippedParts separatesItems (a ++ .newline :: b)) (strippedParts separatesItems (a ++ b)) := by
  have hs : ∀ k, separatesItems (.closing k) = false := fun _ => rfl
  have hrefl (q : List Token) : q.isEmpty = q.isEmpty ∧ Loosened q q := ⟨rfl, .same q⟩
  have hpart {l r : List Token} (h : Loose l r) :
      (stripNewlines (l ++ .newline :: r)).isEmpty = (stripNewlines (l ++ r)).isEmpty ∧
        Loosened (stripNewlines (l ++ .newline :: r)) (stripNewlines (l ++ r)) :=
    ⟨(loosened_stripNewlines h).isEmpty, loosened_stripNewlines h⟩
  rcases hn.split with ⟨ha, hb⟩ | ⟨a₀, k, a₁, b₁, b₀, rfl, rfl, h0, h1, h2⟩
  · obtain ⟨ps, l, hl⟩ := exists_parts_concat separatesItems a
    obtain ⟨r, qs, hr⟩ := exists_parts_cons separatesItems b
    have hnew : parts separatesItems 0 (.newline :: b) = (.newline :: r) :: qs := by
      rw [parts_cons (.inr rfl), depthAfter_plain rfl, hr]
      rfl
    have hlr : Loose l r := by
      rcases nil_of_loose hs rfl ha hb h hl hr with rfl | rfl
      · exact .inl (by simp)
      · exact .inr (by simp)
    rw [strippedParts, strippedParts, parts_glue hs ha, parts_glue hs ha, hnew, hl, hr, glue_concat, glue_concat]
    simp only [List.map_append, List.map_cons]
    exact forall₂_same_or hrefl (hpart hlr)
  · obtain ⟨ps, l, hl⟩ := exists_parts_concat separatesItems a₀
    obtain ⟨r, qs, hr⟩ := exists_parts_cons separatesItems b₀
    have hold := parts_around hs h0 h1 k hl hr
    have hnew := parts_around hs h0 ((nested_insert_iff (t := .newline) rfl).2 h1) k hl hr
    rw [List.cons_append, List.cons_append] at hnew
    rw [strippedParts, strippedParts, hold, hnew]
    simp only [List.map_append, List.map_cons]
    exact forall₂_same_or hrefl (hpart (loose_middle_iff.2 (loose_middle_iff.1 h)))

theorem entryParts_eq {ps : List (List Token)} (h : parts separatesEntries 0 i = ps) :
    entryParts i = (ps.map stripNewlines).filter (!·.isEmpty) := by
  rw [entryParts, strippedParts, h]

theorem entryParts_around {ps qs : List (List Token)} {q : List Token}
    (h : parts separatesEntries 0 i = ps ++ q :: qs) (hq : stripNewlines q ≠ []) :
    entryParts i = (ps.map stripNewlines).filter (!·.isEmpty) ++
      stripNewlines q :: (qs.map stripNewlines).filter (!·.isEmpty) := by
  rw [entryParts_eq h, List.map_append, List.map_cons, List.filter_append, List.filter_cons_of_pos (by simpa using hq)]

theorem entryOf?_opening (k : Bracket) (us : List Token) : entryOf? (.opening k :: us) = none := by
  match us with
  | [] => rfl
  | [_] => rfl
  | sep :: t :: us => simp [entryOf?, key?]

theorem entryOf?_second_opening (x : Token) (k : Bracket) (us : List Token) :
    entryOf? (x :: .opening k :: us) = none := by
  cases us <;> simp [entryOf?]

theorem entryOf?_cons_cons (x y : Token) {v : List Token} (hv : v ≠ []) :
    entryOf? (x :: y :: v) = if y = .equals ∨ y = .colon then (key? x).map fun key => (key, v) else none := by
  obtain ⟨t, us, rfl⟩ := List.exists_cons_of_ne_nil hv
  rfl

theorem rel_entry_same (x : Option (String × List Token)) :
    Option.Rel (fun e f => e.1 = f.1 ∧ Loosened e.2 f.2) x x := by
  cases x with
  | none => exact .none
  | some e => exact .some ⟨rfl, .same e.2⟩

/-- An entry with a bracket in it: key and sign stand before the bracket, so that a newline inside of the bracket is
one of the value. -/
theorem entryOf?_loosened {l a₁ b₁ r : List Token} {k : Bracket} (h : Loose (.opening k :: a₁) (b₁ ++ [.closing k])) :
    Option.Rel (fun e f => e.1 = f.1 ∧ Loosened e.2 f.2)
      (entryOf? ((l ++ .opening k :: a₁) ++ .newline :: (b₁ ++ .closing k :: r)))
      (entryOf? ((l ++ .opening k :: a₁) ++ (b₁ ++ .closing k :: r))) := by
  match l with
  | [] =>
    simp only [List.nil_append, List.cons_append, entryOf?_opening]
    exact .none
  | [x] =>
    simp only [List.cons_append, List.nil_append, entryOf?_second_opening]
    exact .none
  | x :: y :: l =>
    have hvalue : Loosened ((l ++ .opening k :: a₁) ++ .newline :: (b₁ ++ .closing k :: r))
        ((l ++ .opening k :: a₁) ++ (b₁ ++ .closing k :: r)) :=
      .newline (by simp) (by simp) (loose_middle_iff.2 h)
    rw [List.cons_append, List.cons_append, List.cons_append, List.cons_append, List.cons_append, List.cons_append,
      entryOf?_cons_cons x y (by simp), entryOf?_cons_cons x y (by simp)]
    split
    · cases key? x with
      | none => exact .none
      | some key => exact .some ⟨rfl, hvalue⟩
    · exact .none

/-- The entries of a map with one more newline. -/
theorem entryParts_loosened (hn : Nested (a ++ b)) (h : Loose a b) :
    List.Forall₂ (fun q r => Option.Rel (fun e f => e.1 = f.1 ∧ Loosened e.2 f.2) (entryOf? q) (entryOf? r))
      (entryParts (a ++ .newline :: b)) (entryParts (a ++ b)) := by
  have hs : ∀ k, separatesEntries (.closing k) = false := fun _ => rfl
  have hrefl (q : List Token) := rel_entry_same (entryOf? q)
  rcases hn.split with ⟨ha, hb⟩ | ⟨a₀, k, a₁, b₁, b₀, rfl, rfl, h0, h1, h2⟩
  · -- the newline separates what is there from nothing
    obtain ⟨ps, l, hl⟩ := exists_parts_concat separatesEntries a
    obtain ⟨r, qs, hr⟩ := exists_parts_cons separatesEntries b
    have hnew : parts separatesEntries 0 (a ++ .newline :: b) = ps ++ (l ++ []) :: r :: qs := by
      rw [parts_glue hs ha, parts_separator rfl rfl, hl, hr, glue_concat]
    have hold : parts separatesEntries 0 (a ++ b) = ps ++ (l ++ r) :: qs := by
      rw [parts_glue hs ha, hl, hr, glue_concat]
    have heq : entryParts (a ++ .newline :: b) = entryParts (a ++ b) := by
      rw [entryParts_eq hnew, entryParts_eq hold]
      have hnil : stripNewlines [] = [] := rfl
      rcases nil_of_loose hs rfl ha hb h hl hr with rfl | rfl
      · rw [List.append_nil, List.nil_append]
        simp [hnil]
      · simp [hnil, List.filter_cons]
    rw [heq]
    exact List.forall₂_same.2 fun q _ => hrefl q
  · obtain ⟨ps, l, hl⟩ := exists_parts_concat separatesEntries a₀
    obtain ⟨r, qs, hr⟩ := exists_parts_cons separatesEntries b₀
    have hold := parts_around hs h0 h1 k hl hr
    have hnew := parts_around hs h0 ((nested_insert_iff (t := .newline) rfl).2 h1) k hl hr
    rw [List.cons_append, List.cons_append] at hnew
    have hplace : Loose (.opening k :: a₁) (b₁ ++ [.closing k]) := loose_middle_iff.1 h
    have hstrip (b : List Token) : stripNewlines ((l ++ .opening k :: a₁) ++ (b ++ .closing k :: r)) =
        (trimStart isNewline l ++ .opening k :: a₁) ++ (b ++ .closing k :: trimEnd isNewline r) :=
      trim_between rfl rfl l a₁ b r
    rw [entryParts_around hnew (by rw [← List.cons_append, hstrip]; simp),
      entryParts_around hold (by rw [hstrip]; simp), ← List.cons_append, hstrip, hstrip]
    exact forall₂_same_or hrefl (entryOf?_loosened hplace)

end Collections

/-! ### Values -/

section Values

variable {ts us a b : List Token}

/-- One newline does not change which brackets enclose the tokens. -/
theorem enclosed?_newline_iff (ha : a ≠ []) (hb : b ≠ []) {k : Bracket} {i : List Token} :
    enclosed? (a ++ .newline :: b) = some (k, i) ↔ ∃ a' b', i = a' ++ .newline :: b' ∧ a = .opening k :: a' ∧
      b = b' ++ [.closing k] ∧ enclosed? (a ++ b) = some (k, a' ++ b') := by
  constructor
  · intro h
    obtain ⟨hn, hs⟩ := enclosed?_eq_some_iff.1 h
    obtain ⟨t, a, rfl⟩ := List.exists_cons_of_ne_nil ha
    obtain ⟨b, y, rfl⟩ := (List.eq_nil_or_concat' b).resolve_left hb
    have hs' : t :: ((a ++ .newline :: b) ++ [y]) = .opening k :: (i ++ [.closing k]) := by simpa using hs
    obtain ⟨rfl, hi⟩ := List.cons.inj hs'
    obtain ⟨rfl, hy⟩ := List.append_inj' hi rfl
    obtain ⟨rfl, -⟩ := List.cons.inj hy
    have hn' : Nested (a ++ b) := (nested_insert_iff rfl).1 hn
    exact ⟨a, b, rfl, rfl, rfl, enclosed?_eq_some_iff.2 ⟨hn', by simp⟩⟩
  · rintro ⟨a', b', rfl, rfl, rfl, h⟩
    have hn : Nested (a' ++ .newline :: b') := (nested_insert_iff rfl).2 (enclosed?_eq_some_iff.1 h).1
    exact enclosed?_eq_some_iff.2 ⟨hn, by simp⟩

theorem Loose.inside {k : Bracket} (h : Loose (.opening k :: a) (b ++ [.closing k])) : Loose a b := by
  rcases h with h | h
  · refine .inl ?_
    cases a with
    | nil => simp
    | cons x a => simpa only [List.getLast?_cons_cons] using h
  · refine .inr ?_
    cases b with
    | nil => simp
    | cons y b => exact h

/-- What encloses a sequence that is cut in two is around both parts. -/
theorem enclosed?_append (ha : a ≠ []) (hb : b ≠ []) {k : Bracket} {i : List Token}
    (h : enclosed? (a ++ b) = some (k, i)) :
    ∃ a' b', i = a' ++ b' ∧ a = .opening k :: a' ∧ b = b' ++ [.closing k] := by
  obtain ⟨-, hs⟩ := enclosed?_eq_some_iff.1 h
  obtain ⟨t, a, rfl⟩ := List.exists_cons_of_ne_nil ha
  obtain ⟨b, y, rfl⟩ := (List.eq_nil_or_concat' b).resolve_left hb
  have hs' : t :: ((a ++ b) ++ [y]) = .opening k :: (i ++ [.closing k]) := by simpa using hs
  obtain ⟨rfl, hi⟩ := List.cons.inj hs'
  obtain ⟨rfl, hy⟩ := List.append_inj' hi rfl
  obtain ⟨rfl, -⟩ := List.cons.inj hy
  exact ⟨a, b, rfl, rfl, rfl⟩

/-- With a newline inside of it where it means nothing, an expression is read as before. -/
theorem readAlike_of_loosened (h : Loosened us ts) : ReadAlike Loosened us ts := by
  cases h with
  | same => exact .same rfl
  | @newline a b ha hb h =>
    cases hx : enclosed? (a ++ b) with
    | none =>
      -- neither is known: a number with its sign has no such place
      have hy : enclosed? (a ++ .newline :: b) = none := by
        by_contra hy
        obtain ⟨⟨k, i⟩, hy⟩ := Option.ne_none_iff_exists'.1 hy
        obtain ⟨a', b', -, -, -, hi⟩ := (enclosed?_newline_iff ha hb).1 hy
        simp [hx] at hi
      obtain ⟨t, a, rfl⟩ := List.exists_cons_of_ne_nil ha
      obtain ⟨u, b, rfl⟩ := List.exists_cons_of_ne_nil hb
      refine .same ?_
      have hnew (digits : String) : t :: a ++ .newline :: u :: b ≠ [.operator "-", .number digits] := by
        cases a <;> simp
      have hold (digits : String) : t :: a ++ u :: b ≠ [.operator "-", .number digits] := by
        intro hd
        cases a with
        | nil =>
          simp only [List.cons_append, List.nil_append, List.cons.injEq] at hd
          obtain ⟨rfl, rfl, -⟩ := hd
          simp [Loose, opensGap, closesGap] at h
        | cons => simp at hd
      have hlen : 2 ≤ (t :: a ++ u :: b).length := by
        simp only [List.length_append, List.length_cons]
        omega
      have hlen' : 2 ≤ (t :: a ++ .newline :: u :: b).length := by
        simp only [List.length_append, List.length_cons]
        omega
      rw [resolveStripped_of_not_enclosed hx hlen hold, resolveStripped_of_not_enclosed hy hlen' hnew]
    | some x =>
      obtain ⟨k, i⟩ := x
      obtain ⟨a', b', rfl, rfl, rfl⟩ := enclosed?_append ha hb hx
      have hy := (enclosed?_newline_iff ha hb).2 ⟨a', b', rfl, rfl, rfl, hx⟩
      have hn : Nested (a' ++ b') := (enclosed?_eq_some_iff.1 hx).1
      have hl : Loose a' b' := h.inside
      have hstrip := loosened_stripNewlines hl
      cases k with
      | round => exact .round hy hx hstrip
      | square => exact .square hy hx hstrip.isEmpty hstrip.isFor (strippedParts_loosened hn hl)
      | curly => exact .curly hy hx hstrip.isFor (entryParts_loosened hn hl)

/-- One newline at a place where it means nothing does not change the value. -/
theorem resolve_newline (h : Loose a b) : resolve (a ++ .newline :: b) = resolve (a ++ b) :=
  resolveStripped_eq_of_alike (fun _ _ => readAlike_of_loosened) (loosened_stripNewlines h)

/-- Newlines at places where they mean nothing do not change the value of an expression. -/
theorem resolve_of_spaced (h : Spaced ts us) : resolve us = resolve ts := by
  induction h with
  | refl => rfl
  | insert _ hl ih => rw [resolve_newline hl, ih]

theorem resolve_of_spaced_map :
    resolve [.opening .curly, .identifier "a", .equals, .opening .square, .newline, .number "1", .closing .square,
        .newline, .comma, .closing .curly, .newline] =
      resolve [.opening .curly, .identifier "a", .equals, .opening .square, .number "1", .closing .square, .comma,
        .closing .curly] := by
  refine resolve_of_spaced ?_
  have h1 := Spaced.refl [.opening .curly, .identifier "a", .equals, .opening .square, .number "1", .closing .square,
    .comma, .closing .curly]
  have h2 := h1.insert (a := [.opening .curly, .identifier "a", .equals, .opening .square])
    (.inl (by simp [opensGap]))
  have h3 := h2.insert (a := [.opening .curly, .identifier "a", .equals, .opening .square, .newline, .number "1",
    .closing .square]) (.inr (by simp [closesGap]))
  exact h3.insert (a := [.opening .curly, .identifier "a", .equals, .opening .square, .newline, .number "1",
    .closing .square, .newline, .comma, .closing .curly]) (b := []) (.inr (by simp))

end Values

end InfraAudit.Hcl.Expression
