import InfraAudit.Proofs.Hcl.Composition
import Mathlib.Data.List.Nodup
import Mathlib.Data.List.Flatten
import Mathlib.Data.List.Perm.Basic
import Mathlib.Data.List.Perm.Subperm

/-!
# InfraAudit.Proofs.Hcl.Provenance — where values come from

Nothing in the value of an expression is made up: its leaves stand for tokens of the expression, each for one of its
own, and its keys are among the tokens.

* `Value.leaves`, `Value.keys`: what a value is made of.
* `Source`: the token that a leaf stands for.
* `Supplied`: tokens for several leaves, no token for two of them.
* `resolve_provenance`: the value of an expression is supplied by its tokens.
-/

/-! ### Pairs put one after the other -/

namespace InfraAudit.Keyed

variable {α β γ : Type} [BEq α] [LawfulBEq α]

theorem flatMap_put_subperm (g : β → List γ) (key : α) (value : β) (m : List (α × β)) :
    ((put key value m).flatMap fun e => g e.2).Subperm ((m.flatMap fun e => g e.2) ++ g value) := by
  induction m with
  | nil =>
    rw [put, List.flatMap_singleton]
    exact List.Subperm.refl (g value)
  | cons p m ih =>
    obtain ⟨k, v⟩ := p
    by_cases hk : k = key
    · rw [hk, put_cons_self, List.flatMap_cons, List.flatMap_cons, List.append_assoc]
      have hperm : (g value ++ m.flatMap fun e => g e.2).Perm ((m.flatMap fun e => g e.2) ++ g value) :=
        List.perm_append_comm
      exact hperm.subperm.trans (List.sublist_append_right _ _).subperm
    · rw [put_cons_of_ne hk, List.flatMap_cons, List.flatMap_cons, List.append_assoc]
      exact (List.subperm_append_left _).2 ih

/-- What the values of a map hold is held by those of the pairs that are put there. -/
theorem flatMap_ofPairs_subperm (g : β → List γ) (pairs : List (α × β)) :
    ((ofPairs pairs).flatMap fun e => g e.2).Subperm (pairs.flatMap fun e => g e.2) := by
  induction pairs using List.reverseRecOn with
  | nil => exact List.Subperm.refl _
  | append_singleton pairs p ih =>
    rw [ofPairs_concat, List.flatMap_append, List.flatMap_singleton]
    exact (flatMap_put_subperm g p.1 p.2 _).trans ((List.subperm_append_right _).2 ih)

end InfraAudit.Keyed

namespace InfraAudit.Hcl

open InfraAudit.Decimal InfraAudit.Text

/-! ### Leaves and keys -/

namespace Value

mutual

/-- What a value is made of: the values in it that are neither lists nor maps. -/
def leaves : Value → List Value
  | .list items => leavesItems items
  | .map entries => leavesEntries entries
  | v => [v]

/-- The leaves of the items of a list. -/
def leavesItems : List Value → List Value
  | [] => []
  | v :: vs => leaves v ++ leavesItems vs

/-- The leaves of the entries of a map. -/
def leavesEntries : List (String × Value) → List Value
  | [] => []
  | (_, v) :: es => leaves v ++ leavesEntries es

end

mutual

/-- The keys of the maps in a value. -/
def keys : Value → List String
  | .list items => keysItems items
  | .map entries => keysEntries entries
  | _ => []

/-- The keys of the maps in the items of a list. -/
def keysItems : List Value → List String
  | [] => []
  | v :: vs => keys v ++ keysItems vs

/-- The keys of the entries of a map and of the maps in there. -/
def keysEntries : List (String × Value) → List String
  | [] => []
  | (k, v) :: es => k :: (keys v ++ keysEntries es)

end

theorem leavesItems_eq (vs : List Value) : leavesItems vs = vs.flatMap leaves := by
  induction vs with
  | nil => rfl
  | cons v vs ih => rw [leavesItems, ih, List.flatMap_cons]

theorem leavesEntries_eq (es : List (String × Value)) : leavesEntries es = es.flatMap fun e => leaves e.2 := by
  induction es with
  | nil => rfl
  | cons e es ih => rw [leavesEntries, ih, List.flatMap_cons]

theorem keysItems_eq (vs : List Value) : keysItems vs = vs.flatMap keys := by
  induction vs with
  | nil => rfl
  | cons v vs ih => rw [keysItems, ih, List.flatMap_cons]

theorem keysEntries_eq (es : List (String × Value)) : keysEntries es = es.flatMap fun e => e.1 :: keys e.2 := by
  induction es with
  | nil => rfl
  | cons e es ih => rw [keysEntries, ih, List.flatMap_cons, List.cons_append]

end Value

namespace Expression

/-! ### Sources -/

/-- The token at an index is the source of a leaf: a string or a heredoc without template sequences, a truth value, or
a number, with its sign if a minus stands directly before it.  Any token is one of a value that is not known. -/
inductive Source (ts : List Token) : Nat → Value → Prop
  | string {i : Nat} {s : String} (h : ts[i]? = some (.string s false)) : Source ts i (.string s)
  | heredoc {i : Nat} {s : String} (h : ts[i]? = some (.heredoc s false)) : Source ts i (.string s)
  | true {i : Nat} (h : ts[i]? = some (.identifier "true")) : Source ts i (.bool true)
  | false {i : Nat} (h : ts[i]? = some (.identifier "false")) : Source ts i (.bool false)
  | number {i : Nat} {digits : String} {n : Numeral} (h : ts[i]? = some (.number digits))
      (hn : Numeral.ofLiteral digits = .ok n) : Source ts i (.number n)
  | negative {i : Nat} {digits : String} {n : Numeral} (hm : ts[i]? = some (.operator "-"))
      (h : ts[i + 1]? = some (.number digits)) (hn : Numeral.ofLiteral digits = .ok n) :
      Source ts (i + 1) (.number n.neg)
  | unresolved {i : Nat} (h : i < ts.length) : Source ts i .unresolved

/-- Tokens for leaves, no token for two of them. -/
def Supplied (ts : List Token) (leaves : List Value) : Prop :=
  ∃ places : List Nat, places.Nodup ∧ List.Forall₂ (Source ts) places leaves

section Sources

variable {ts us a b : List Token} {xs ys : List Value} {x : Value} {i : Nat}

theorem Source.lt (h : Source ts i x) : i < ts.length := by
  cases h with
  | unresolved h => exact h
  | negative _ h _ => exact (List.getElem?_eq_some_iff.1 h).1
  | number h _ => exact (List.getElem?_eq_some_iff.1 h).1
  | _ h => exact (List.getElem?_eq_some_iff.1 h).1

/-- Tokens before and behind an expression move the sources of its leaves. -/
theorem Source.between (h : Source ts i x) (a b : List Token) : Source (a ++ (ts ++ b)) (a.length + i) x := by
  have key {j : Nat} {t : Token} (h : ts[j]? = some t) : (a ++ (ts ++ b))[a.length + j]? = some t := by
    have hj : j < ts.length := (List.getElem?_eq_some_iff.1 h).1
    rw [List.getElem?_append_right (by omega), Nat.add_sub_cancel_left, List.getElem?_append_left hj, h]
  cases h with
  | string h => exact .string (key h)
  | heredoc h => exact .heredoc (key h)
  | true h => exact .true (key h)
  | false h => exact .false (key h)
  | number h hn => exact .number (key h) hn
  | negative hm h hn => exact .negative (key hm) (key h) hn
  | unresolved h =>
    refine .unresolved ?_
    simp only [List.length_append]
    omega

theorem supplied_nil (ts : List Token) : Supplied ts [] :=
  ⟨[], List.nodup_nil, .nil⟩

theorem Source.supplied (h : Source ts i x) : Supplied ts [x] :=
  ⟨[i], List.pairwise_singleton _ i, .cons h .nil⟩

theorem Supplied.between (h : Supplied ts xs) (a b : List Token) : Supplied (a ++ (ts ++ b)) xs := by
  obtain ⟨places, hn, hs⟩ := h
  refine ⟨places.map (a.length + ·), hn.map fun i j => Nat.add_left_cancel, ?_⟩
  rw [List.forall₂_map_left_iff]
  exact hs.imp fun i x hx => hx.between a b

theorem Supplied.mono (h : Supplied ts xs) (hi : ts <:+: us) : Supplied us xs := by
  obtain ⟨a, b, rfl⟩ := hi
  rw [List.append_assoc]
  exact h.between a b

/-- What one expression supplies and what the one behind it supplies do not share tokens. -/
theorem Supplied.append (h : Supplied ts xs) (hu : Supplied us ys) : Supplied (ts ++ us) (xs ++ ys) := by
  obtain ⟨places, hn, hs⟩ := h
  obtain ⟨places', hn', hs'⟩ := hu
  have hlt : ∀ i ∈ places, i < ts.length :=
    ((List.forall₂_and_left places xs).1 (hs.imp fun i x hx => ⟨hx.lt, hx⟩)).1
  refine ⟨places ++ places'.map (ts.length + ·), ?_, ?_⟩
  · refine List.nodup_append.2 ⟨hn, hn'.map fun i j => Nat.add_left_cancel, fun i hi j hj => ?_⟩
    obtain ⟨k, -, rfl⟩ := List.mem_map.1 hj
    have hi := hlt i hi
    omega
  · refine List.rel_append (hs.imp fun i x hx => by simpa using hx.between [] us) ?_
    rw [List.forall₂_map_left_iff]
    exact hs'.imp fun i x hx => by simpa using hx.between ts []

theorem exists_sublist_of_forall₂ {α β : Type} {r : α → β → Prop} {l : List α} {m m' : List β}
    (h : List.Forall₂ r l m) (hs : m'.Sublist m) : ∃ l', l'.Sublist l ∧ List.Forall₂ r l' m' := by
  induction hs generalizing l with
  | slnil => exact ⟨l, .refl l, h⟩
  | cons b _ ih =>
    obtain ⟨a, l, -, hl, rfl⟩ := List.forall₂_cons_right_iff.1 h
    obtain ⟨l', hs, hl'⟩ := ih hl
    exact ⟨l', hs.cons a, hl'⟩
  | cons_cons b _ ih =>
    obtain ⟨a, l, hab, hl, rfl⟩ := List.forall₂_cons_right_iff.1 h
    obtain ⟨l', hs, hl'⟩ := ih hl
    exact ⟨a :: l', hs.cons_cons a, .cons hab hl'⟩

/-- Fewer leaves, in any order, need no other tokens. -/
theorem Supplied.subperm (h : Supplied ts ys) (hs : xs.Subperm ys) : Supplied ts xs := by
  obtain ⟨places, hn, hp⟩ := h
  obtain ⟨zs, hperm, hsub⟩ := hs
  obtain ⟨fewer, hfewer, hzs⟩ := exists_sublist_of_forall₂ hp hsub
  have hcomp : Relation.Comp List.Perm (List.Forall₂ (Source ts)) fewer xs := by
    rw [← List.forall₂_comp_perm_eq_perm_comp_forall₂]
    exact ⟨zs, hzs, hperm⟩
  obtain ⟨places', hperm', hxs⟩ := hcomp
  exact ⟨places', hperm'.nodup (hn.sublist hfewer), hxs⟩

end Sources

/-! ### Parts in their places -/

/-- Parts put together again, with one token between each two of them. -/
inductive Joined : List (List Token) → List Token → Prop
  | single (p : List Token) : Joined [p] p
  | cons (p : List Token) (t : Token) {ps : List (List Token)} {ts : List Token} (h : Joined ps ts) :
      Joined (p :: ps) (p ++ t :: ts)

section Parts

variable {sep : Token → Bool} {ts inner : List Token} {ps : List (List Token)}

theorem joined_parts (sep : Token → Bool) (d : Int) (ts : List Token) : Joined (parts sep d ts) ts := by
  induction ts generalizing d with
  | nil => exact .single []
  | cons t ts ih =>
    by_cases hsep : (depthAfter d t == 0 && sep t) = true
    · simp only [parts, hsep, ite_true]
      exact .cons [] t (ih _)
    · have hor : depthAfter d t ≠ 0 ∨ sep t = false := by
        by_cases hd : depthAfter d t = 0
        · exact .inr (by simpa [hd] using hsep)
        · exact .inl hd
      rw [parts_cons hor]
      have hj := ih (depthAfter d t)
      generalize parts sep (depthAfter d t) ts = qs at hj
      cases hj with
      | single => exact .single _
      | cons p u h => exact .cons (t :: p) u h

theorem isInfix_stripNewlines (ts : List Token) : stripNewlines ts <:+: ts := by
  have hstart : trimStart isNewline ts <:+ ts := List.dropWhile_suffix _
  have hend : stripNewlines ts <+: trimStart isNewline ts := by
    have h := (List.dropWhile_suffix (l := (trimStart isNewline ts).reverse) isNewline).reverse
    rwa [List.reverse_reverse] at h
  exact hend.isInfix.trans hstart.isInfix

theorem Supplied.joined {f : List Token → List Value} (h : Joined ps ts) (hf : ∀ p ∈ ps, Supplied p (f p)) :
    Supplied ts (ps.flatMap f) := by
  induction h with
  | single p => simpa using hf p (by simp)
  | @cons p t ps ts _ ih =>
    obtain ⟨hp, hps⟩ := List.forall_mem_cons.1 hf
    have hrest : Supplied (t :: ts) (ps.flatMap f) := (ih hps).mono (List.suffix_cons t ts).isInfix
    rw [List.flatMap_cons]
    exact hp.append hrest

/-- What the parts between separators supply is supplied by the tokens that are cut into them. -/
theorem supplied_strippedParts {f : List Token → List Value}
    (hf : ∀ q ∈ strippedParts sep ts, Supplied q (f q)) : Supplied ts ((strippedParts sep ts).flatMap f) := by
  rw [strippedParts, List.flatMap_map]
  refine Supplied.joined (joined_parts sep 0 ts) fun p hp => ?_
  exact (hf _ (List.mem_map_of_mem hp)).mono (isInfix_stripNewlines p)

end Parts

/-! ### Values from tokens -/

/-- Every leaf of the value stands for a token of its own, and every key for a token as well. -/
structure Taken (ts : List Token) (v : Value) : Prop where
  leaves : Supplied ts v.leaves
  keys : ∀ key ∈ v.keys, ∃ t ∈ ts, key? t = some key

section Values

variable {ts us inner q : List Token} {v : Value}

theorem Taken.mono (h : Taken ts v) (hi : ts <:+: us) : Taken us v where
  leaves := h.leaves.mono hi
  keys key hk :=
    have ⟨t, ht, hkey⟩ := h.keys key hk
    ⟨t, hi.subset ht, hkey⟩

theorem taken_unresolved (h : ts ≠ []) : Taken ts .unresolved where
  leaves := (Source.unresolved (List.length_pos_iff.2 h)).supplied
  keys := by simp [Value.keys]

theorem taken_literal {t : Token} (h : literal t = .ok v) : Taken [t] v := by
  unfold literal at h
  split at h
  · cases h
    exact ⟨(Source.string (i := 0) rfl).supplied, by simp [Value.keys]⟩
  · cases h
    exact ⟨(Source.heredoc (i := 0) rfl).supplied, by simp [Value.keys]⟩
  · obtain ⟨n, hn, rfl⟩ := Document.eq_ok_of_map h
    exact ⟨(Source.number (i := 0) rfl hn).supplied, by simp [Value.keys]⟩
  · next name =>
    by_cases ht : name = "true"
    · subst ht
      cases h
      exact ⟨(Source.true (i := 0) rfl).supplied, by simp [Value.keys]⟩
    by_cases hf : name = "false"
    · subst hf
      cases h
      exact ⟨(Source.false (i := 0) rfl).supplied, by simp [Value.keys]⟩
    · simp only [ht, hf, ite_false] at h
      cases h
      exact taken_unresolved (List.cons_ne_nil _ _)
  · cases h
    exact taken_unresolved (List.cons_ne_nil _ _)

theorem taken_negative {digits : String} {n : Numeral} (hn : Numeral.ofLiteral digits = .ok n) :
    Taken [.operator "-", .number digits] (.number n.neg) :=
  ⟨(Source.negative (i := 0) rfl rfl hn).supplied, by simp [Value.keys]⟩

theorem entryOf?_eq_some {e : String × List Token} (h : entryOf? q = some e) :
    ∃ t sign, q = t :: sign :: e.2 ∧ key? t = some e.1 ∧ e.2 ≠ [] := by
  unfold entryOf? at h
  split at h
  · simp only [Option.ite_none_right_eq_some, Option.map_eq_some_iff] at h
    obtain ⟨-, key, hkey, rfl⟩ := h
    exact ⟨_, _, rfl, hkey, List.cons_ne_nil _ _⟩
  · cases h

/-- The leaves of what an expression stands for, if it has tokens and a value. -/
def leavesOf (q : List Token) : List Value :=
  match resolveStripped q with
  | .ok v => if q = [] then [] else v.leaves
  | .error _ => []

theorem leavesOf_eq (h : resolveStripped q = .ok v) (hq : q ≠ []) : leavesOf q = v.leaves := by
  simp only [leavesOf, h, hq, ite_false]

theorem supplied_leavesOf (h : ∀ v, q ≠ [] → resolveStripped q = .ok v → Taken q v) : Supplied q (leavesOf q) := by
  unfold leavesOf
  split
  · next v hv =>
    by_cases hq : q = []
    · rw [if_pos hq]
      exact supplied_nil q
    · rw [if_neg hq]
      exact (h v hq hv).leaves
  · exact supplied_nil q

theorem exists_mem_of_forall₂ {α β : Type} {r : α → β → Prop} {l : List α} {m : List β} {b : β}
    (h : List.Forall₂ r l m) (hb : b ∈ m) : ∃ a ∈ l, r a b := by
  induction h with
  | nil => cases hb
  | @cons a _ l _ hab _ ih =>
    rcases List.mem_cons.1 hb with rfl | hb
    · exact ⟨a, List.mem_cons_self, hab⟩
    · obtain ⟨a', ha', hab'⟩ := ih hb
      exact ⟨a', List.mem_cons_of_mem a ha', hab'⟩

theorem flatMap_eq_of_forall₂ {α β γ : Type} {r : α → β → Prop} {f : α → List γ} {g : β → List γ} {l : List α}
    {m : List β} (h : List.Forall₂ r l m) (hfg : ∀ a ∈ l, ∀ b, r a b → g b = f a) : m.flatMap g = l.flatMap f := by
  induction h with
  | nil => rfl
  | cons hab _ ih =>
    obtain ⟨ha, hl⟩ := List.forall_mem_cons.1 hfg
    rw [List.flatMap_cons, List.flatMap_cons, ha _ hab, ih hl]

/-- The values of the items of a list are made of tokens of the list. -/
theorem taken_list {vs : List Value} (hvs : (items inner).mapM resolveStripped = .ok vs)
    (ih : ∀ q ∈ strippedParts separatesItems inner, ∀ v, q ≠ [] → resolveStripped q = .ok v → Taken q v) :
    Taken inner (.list vs) := by
  have hvalues := forall₂_of_mapM_ok hvs
  have hne : ∀ q ∈ items inner, q ≠ [] := fun q hq => by simpa using List.mem_takeWhile_imp hq
  have hleaves : vs.flatMap Value.leaves = (items inner).flatMap leavesOf :=
    flatMap_eq_of_forall₂ hvalues fun q hq v hv => (leavesOf_eq hv (hne q hq)).symm
  refine ⟨?_, fun key hk => ?_⟩
  · rw [Value.leaves, Value.leavesItems_eq, hleaves]
    have hsub : ((items inner).flatMap leavesOf).Sublist ((strippedParts separatesItems inner).flatMap leavesOf) :=
      (List.takeWhile_sublist _).flatMap leavesOf
    exact (supplied_strippedParts fun q hq => supplied_leavesOf (ih q hq)).subperm hsub.subperm
  · rw [Value.keys, Value.keysItems_eq] at hk
    obtain ⟨v, hv, hk⟩ := List.mem_flatMap.1 hk
    obtain ⟨q, hq, hqv⟩ := exists_mem_of_forall₂ hvalues hv
    obtain ⟨t, ht, hkey⟩ := (ih q ((List.takeWhile_sublist _).mem hq) v (hne q hq) hqv).keys key hk
    exact ⟨t, (sublist_of_mem_items hq).mem ht, hkey⟩

theorem entries_sublist (inner : List Token) :
    (entries inner).Sublist ((strippedParts separatesEntries inner).filterMap entryOf?) :=
  ((List.takeWhile_sublist _).trans List.filter_sublist).filterMap entryOf?

/-- The keys and values of the entries of a map are made of tokens of the map. -/
theorem taken_map {ps : List (String × Value)}
    (hps : ((entries inner).mapM fun (key, q) => return (key, ← resolveStripped q)) = .ok ps)
    (ih : ∀ q ∈ strippedParts separatesEntries inner, ∀ e, entryOf? q = some e → ∀ v, resolveStripped e.2 = .ok v →
      Taken e.2 v) : Taken inner (.map (Keyed.ofPairs ps)) := by
  have hvalues : List.Forall₂ (fun e p => p.1 = e.1 ∧ resolveStripped e.2 = .ok p.2) (entries inner) ps := by
    refine (forall₂_of_mapM_ok hps).imp fun e p hp => ?_
    obtain ⟨v, hv, hp⟩ := Document.eq_ok_of_bind hp
    cases hp
    exact ⟨rfl, hv⟩
  have hentry : ∀ e ∈ entries inner, ∃ q ∈ strippedParts separatesEntries inner, entryOf? q = some e :=
    fun e he => List.mem_filterMap.1 ((entries_sublist inner).mem he)
  refine ⟨?_, fun key hk => ?_⟩
  · -- the leaves of a part are those of its entry, if it is one
    have hsupplied : ∀ q ∈ strippedParts separatesEntries inner,
        Supplied q ((entryOf? q).toList.flatMap fun e => leavesOf e.2) := by
      intro q hq
      cases he : entryOf? q with
      | none => exact supplied_nil q
      | some e =>
        obtain ⟨t, sign, rfl, -, -⟩ := entryOf?_eq_some he
        have hvalue : Supplied e.2 (leavesOf e.2) := supplied_leavesOf fun v _ hv => ih _ hq e he v hv
        have hsuffix : e.2 <:+ t :: sign :: e.2 := (List.suffix_cons sign e.2).trans (List.suffix_cons t _)
        simpa using hvalue.mono hsuffix.isInfix
    have hleaves : (ps.flatMap fun p => p.2.leaves) = (entries inner).flatMap fun e => leavesOf e.2 := by
      refine flatMap_eq_of_forall₂ hvalues fun e he p hp => ?_
      obtain ⟨q, -, hq⟩ := hentry e he
      obtain ⟨t, sign, -, -, hne⟩ := entryOf?_eq_some hq
      exact (leavesOf_eq hp.2 hne).symm
    have hsub := (entries_sublist inner).flatMap fun e => leavesOf e.2
    rw [List.filterMap_eq_flatMap_toList, List.flatMap_assoc, ← hleaves] at hsub
    rw [Value.leaves, Value.leavesEntries_eq]
    have hpairs := Keyed.flatMap_ofPairs_subperm Value.leaves ps
    exact (supplied_strippedParts hsupplied).subperm (hpairs.trans hsub.subperm)
  · rw [Value.keys, Value.keysEntries_eq] at hk
    obtain ⟨p, hp, hk⟩ := List.mem_flatMap.1 hk
    obtain ⟨e, he, hkey, hv⟩ := exists_mem_of_forall₂ hvalues (Keyed.mem_of_mem_ofPairs hp)
    obtain ⟨q, hq, heq⟩ := hentry e he
    obtain ⟨t, sign, rfl, ht, -⟩ := entryOf?_eq_some heq
    have hmem : ∀ u ∈ t :: sign :: e.2, u ∈ inner := fun u hu => (sublist_of_mem_strippedParts hq).mem hu
    rcases List.mem_cons.1 hk with rfl | hk
    · exact ⟨t, hmem t List.mem_cons_self, hkey ▸ ht⟩
    · obtain ⟨u, hu, huk⟩ := (ih _ hq e heq p.2 hv).keys key hk
      exact ⟨u, hmem u (List.mem_cons_of_mem _ (List.mem_cons_of_mem _ hu)), huk⟩

/-- The value of an expression with tokens is made of them. -/
theorem taken_of_resolveStripped (h : resolveStripped ts = .ok v) (hne : ts ≠ []) : Taken ts v := by
  induction hn : ts.length using Nat.strongRecOn generalizing ts v with
  | ind n ih =>
    cases hx : enclosed? ts with
    | none =>
      rw [resolveStripped.eq_def] at h
      split at h
      · exact absurd rfl hne
      · exact taken_literal h
      · obtain ⟨m, hm, rfl⟩ := Document.eq_ok_of_map h
        exact taken_negative hm
      · split at h
        · cases h
          exact taken_unresolved hne
        all_goals simp_all
    | some x =>
      obtain ⟨b, inner⟩ := x
      have hlt := length_enclosed?_lt hx
      have hinfix : inner <:+: ts := by
        obtain ⟨-, rfl⟩ := enclosed?_eq_some_iff.1 hx
        exact ⟨[.opening b], [.closing b], by simp⟩
      have shorter {q : List Token} {w : Value} (hl : q.length ≤ inner.length) (hq : q ≠ [])
          (hw : resolveStripped q = .ok w) : Taken q w :=
        ih q.length (hn ▸ Nat.lt_of_le_of_lt hl hlt) hw hq rfl
      rw [resolveStripped_enclosed hx] at h
      cases b with
      | round =>
        by_cases hs : stripNewlines inner = []
        · simp only [hs, resolveStripped] at h
          cases h
          exact taken_unresolved hne
        · exact ((shorter (length_trim_le _ _) hs h).mono (isInfix_stripNewlines inner)).mono hinfix
      | square =>
        simp only at h
        split at h
        · cases h
          exact ⟨supplied_nil ts, by simp [Value.keys, Value.keysItems]⟩
        split at h
        · cases h
          exact taken_unresolved hne
        obtain ⟨vs, hvs, h⟩ := Document.eq_ok_of_bind h
        cases h
        split
        · exact (taken_list hvs fun q hq v hq' => shorter (length_of_mem_strippedParts hq) hq').mono hinfix
        · exact taken_unresolved hne
      | curly =>
        simp only at h
        split at h
        · cases h
          exact taken_unresolved hne
        obtain ⟨ps, hps, h⟩ := Document.eq_ok_of_bind h
        cases h
        split
        · refine (taken_map hps fun q hq e he v hv => ?_).mono hinfix
          obtain ⟨t, sign, rfl, -, hne'⟩ := entryOf?_eq_some he
          have hl := length_of_mem_strippedParts hq
          simp only [List.length_cons] at hl
          exact shorter (by omega) hne' hv
        · exact taken_unresolved hne

/-- The leaves of the value of an expression stand for tokens of it, no two for the same token, and its keys are
tokens of it.  Without tokens, nothing is known. -/
theorem resolve_provenance (h : resolve ts = .ok v) :
    ((ts = [] ∧ v = .unresolved) ∨ ∃ places : List Nat, places.Nodup ∧ List.Forall₂ (Source ts) places v.leaves) ∧
      ∀ key ∈ v.keys, ∃ t ∈ ts, t = .identifier key ∨ t = .number key ∨ t = .string key false := by
  by_cases hs : stripNewlines ts = []
  · rw [resolve, hs, resolveStripped] at h
    cases h
    refine ⟨?_, by simp [Value.keys]⟩
    by_cases hts : ts = []
    · exact .inl ⟨hts, rfl⟩
    · exact .inr (taken_unresolved hts).leaves
  · have htaken : Taken ts v := (taken_of_resolveStripped h hs).mono (isInfix_stripNewlines ts)
    refine ⟨.inr htaken.leaves, fun key hk => ?_⟩
    obtain ⟨t, ht, hkey⟩ := htaken.keys key hk
    refine ⟨t, ht, ?_⟩
    unfold key? at hkey
    split at hkey <;> cases hkey <;> simp

theorem resolve_provenance_map :
    ∃ places : List Nat, places.Nodup ∧ List.Forall₂ (Source [.opening .curly, .identifier "a", .equals, .number "1",
      .comma, .string "b" false, .colon, .operator "-", .number "2", .newline, .identifier "a", .equals,
      .identifier "true", .closing .curly]) places [.bool true, .number (Numeral.integer 2).neg] := by
  have h : resolve [.opening .curly, .identifier "a", .equals, .number "1", .comma, .string "b" false, .colon,
      .operator "-", .number "2", .newline, .identifier "a", .equals, .identifier "true", .closing .curly] =
        .ok (.map [("a", .bool true), ("b", .number (Numeral.integer 2).neg)]) := by
    with_unfolding_all rfl
  rcases (resolve_provenance h).1 with ⟨h, -⟩ | h
  · cases h
  · exact h

end Values

end Expression

end InfraAudit.Hcl
