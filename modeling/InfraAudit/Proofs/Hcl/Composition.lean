import InfraAudit.Proofs.Hcl.Resolution
import Mathlib.Data.List.Forall2
import Mathlib.Data.List.Induction

/-!
# InfraAudit.Proofs.Hcl.Composition — lists, maps and parentheses

The value of an expression in brackets is made of the values of the expressions in there.

* `Keyed.map_fst_ofPairs`, `Keyed.lookup_ofPairs`: a known key keeps its place and takes the last value.
  `Keyed.ofPairs_of_nodup`: pairs with distinct keys are a map as they stand.
* `IsItem`: what stands between the commas of a list.  `resolve_list`: the values of the items, in a list.
* `MapEntry`, `MapBody`: entries with commas and newlines around them.  `resolve_map`: their values, under their keys.
* `resolve_round`: parentheses change nothing.  `resolve_composition`: the three together, with the values.
* `IsPart`: expressions without newlines, which can stand in lists and in maps.
-/

/-! ### Pairs put one after the other -/

namespace InfraAudit.Keyed

variable {α β : Type} [BEq α] [LawfulBEq α] {key : α} {value : β} {m : List (α × β)}

omit [LawfulBEq α] in
theorem ofPairs_concat (pairs : List (α × β)) (p : α × β) : ofPairs (pairs ++ [p]) = put p.1 p.2 (ofPairs pairs) := by
  rw [ofPairs, ofPairs, List.foldl_append, List.foldl_cons, List.foldl_nil]

theorem put_cons_self (v : β) : put key value ((key, v) :: m) = (key, value) :: m := by
  simp [put]

theorem put_cons_of_ne {k : α} (h : k ≠ key) (v : β) : put key value ((k, v) :: m) = (k, v) :: put key value m := by
  have hb : (k == key) = false := beq_eq_false_iff_ne.2 h
  simp [put, hb]

theorem put_of_not_mem (h : key ∉ m.map Prod.fst) : put key value m = m ++ [(key, value)] := by
  induction m with
  | nil => rfl
  | cons p m ih =>
    obtain ⟨k, v⟩ := p
    rw [List.map_cons, List.mem_cons, not_or] at h
    rw [put_cons_of_ne (Ne.symm h.1), ih h.2, List.cons_append]

theorem map_fst_put_of_mem (h : key ∈ m.map Prod.fst) : (put key value m).map Prod.fst = m.map Prod.fst := by
  induction m with
  | nil => simp at h
  | cons p m ih =>
    obtain ⟨k, v⟩ := p
    by_cases hk : k = key
    · rw [hk, put_cons_self, List.map_cons, List.map_cons]
    · have hm : key ∈ m.map Prod.fst := (List.mem_cons.1 h).resolve_left (Ne.symm hk)
      rw [put_cons_of_ne hk, List.map_cons, List.map_cons, ih hm]

theorem lookup_put (k : α) : (put key value m).lookup k = if k == key then some value else m.lookup k := by
  induction m with
  | nil => cases hk : k == key <;> simp [put, List.lookup_cons, hk]
  | cons p m ih =>
    obtain ⟨k', v⟩ := p
    by_cases hk' : k' = key
    · subst hk'
      cases hk : k == k' <;> simp [put_cons_self, List.lookup_cons, hk]
    · rw [put_cons_of_ne hk', List.lookup_cons, List.lookup_cons, ih]
      cases hk : k == k' with
      | true =>
        have hb : (k == key) = false := beq_eq_false_iff_ne.2 fun h => hk' ((eq_of_beq hk).symm.trans h)
        simp [hb]
      | false => rfl

theorem mem_of_mem_put {e : α × β} (h : e ∈ put key value m) : e ∈ m ∨ e = (key, value) := by
  induction m with
  | nil => exact .inr (List.mem_singleton.1 h)
  | cons p m ih =>
    obtain ⟨k, v⟩ := p
    by_cases hk : k = key
    · rw [hk, put_cons_self] at h
      exact (List.mem_cons.1 h).symm.imp_left (List.mem_cons_of_mem _)
    · rw [put_cons_of_ne hk] at h
      rcases List.mem_cons.1 h with rfl | h
      · exact .inl List.mem_cons_self
      · exact (ih h).imp_left (List.mem_cons_of_mem _)

theorem mem_of_mem_ofPairs {e : α × β} {pairs : List (α × β)} (h : e ∈ ofPairs pairs) : e ∈ pairs := by
  induction pairs using List.reverseRecOn with
  | nil => cases h
  | append_singleton pairs p ih =>
    rw [ofPairs_concat] at h
    rcases mem_of_mem_put h with h | rfl
    · exact List.mem_append_left _ (ih h)
    · exact List.mem_append_right _ List.mem_cons_self

/-- The keys are those of the pairs, each where it is put first. -/
theorem map_fst_ofPairs (pairs : List (α × β)) : (ofPairs pairs).map Prod.fst = (pairs.map Prod.fst).eraseDups := by
  induction pairs using List.reverseRecOn with
  | nil => rfl
  | append_singleton pairs p ih =>
    rw [ofPairs_concat, List.map_append, List.map_singleton, List.eraseDups_append, ← ih]
    by_cases hp : p.1 ∈ pairs.map Prod.fst
    · have hm : p.1 ∈ (ofPairs pairs).map Prod.fst := ih ▸ List.mem_eraseDups.2 hp
      have hnew : [p.1].removeAll (pairs.map Prod.fst) = [] := by simpa [List.removeAll] using hp
      rw [map_fst_put_of_mem hm, hnew, List.eraseDups_nil, List.append_nil]
    · have hm : p.1 ∉ (ofPairs pairs).map Prod.fst := fun h => hp (List.mem_eraseDups.1 (ih ▸ h))
      have hnew : [p.1].removeAll (pairs.map Prod.fst) = [p.1] := by simpa [List.removeAll] using hp
      rw [put_of_not_mem hm, hnew, List.map_append]
      rfl

/-- A key has the value that is put last. -/
theorem lookup_ofPairs (pairs : List (α × β)) (k : α) : (ofPairs pairs).lookup k = pairs.reverse.lookup k := by
  induction pairs using List.reverseRecOn with
  | nil => rfl
  | append_singleton pairs p ih =>
    rw [ofPairs_concat, lookup_put, ih, List.reverse_concat, List.lookup_cons]
    cases k == p.1 <;> rfl

theorem ofPairs_of_nodup {pairs : List (α × β)} (h : (pairs.map Prod.fst).Nodup) : ofPairs pairs = pairs := by
  induction pairs using List.reverseRecOn with
  | nil => rfl
  | append_singleton pairs p ih =>
    obtain ⟨h1, -, h2⟩ := List.nodup_append.1 (List.map_append ▸ h)
    have hp : p.1 ∉ pairs.map Prod.fst := fun hm => h2 _ hm _ (List.mem_singleton_self p.1) rfl
    rw [ofPairs_concat, ih h1, put_of_not_mem hp]

end InfraAudit.Keyed

namespace InfraAudit.Hcl.Expression

open InfraAudit.Text

/-! ### One level, from its parts -/

section Levels

variable {inner : List Token}

/-- A list whose items are all there, with or without a separator behind the last one. -/
theorem resolveStripped_items {es rest : List (List Token)} (hn : Nested inner) (hne : stripNewlines inner ≠ [])
    (hfor : isFor (stripNewlines inner) = false) (hp : strippedParts separatesItems inner = es ++ rest)
    (hes : ∀ e ∈ es, e ≠ []) (hrest : rest = [] ∨ rest = [[]]) :
    resolveStripped (.opening .square :: (inner ++ [.closing .square])) =
      (es.mapM resolveStripped).map .list := by
  have hempty : (stripNewlines inner).isEmpty = false := List.isEmpty_eq_false_iff.2 hne
  have hitems : items inner = es := by
    have htake : es.takeWhile (!·.isEmpty) = es := List.takeWhile_eq_self_iff.2 fun e he => by simpa using hes e he
    rw [items, hp, List.takeWhile_append, htake]
    rcases hrest with rfl | rfl <;> simp
  have hcomplete : itemsComplete inner = true := by
    rw [itemsComplete, hp, hitems]
    rcases hrest with rfl | rfl <;> simp
  rw [resolveStripped_enclosed (enclosed?_group hn .square)]
  simp only [hempty, hfor, hitems, hcomplete, Bool.false_eq_true, ite_false, ite_true]
  exact bind_pure_comp _ _

/-- A map in which every part is an entry. -/
theorem resolveStripped_entries {ps : List (String × List Token)} (hn : Nested inner)
    (hfor : isFor (stripNewlines inner) = false) (hp : (entryParts inner).map entryOf? = ps.map some) :
    resolveStripped (.opening .curly :: (inner ++ [.closing .curly])) =
      Except.map (fun vs => .map (Keyed.ofPairs vs)) (ps.mapM fun (key, q) => return (key, ← resolveStripped q)) := by
  have hsome : ∀ q ∈ entryParts inner, (entryOf? q).isSome = true := fun q hq => by
    have hmem : entryOf? q ∈ ps.map some := hp ▸ List.mem_map_of_mem hq
    obtain ⟨e, -, he⟩ := List.mem_map.1 hmem
    rw [← he]
    rfl
  have hentries : entries inner = ps := by
    have hmap : ((entryParts inner).map entryOf?).filterMap id = ps := by rw [hp, List.filterMap_map]; simp
    rw [entries, List.takeWhile_eq_self_iff.2 hsome, ← hmap, List.filterMap_map]
    rfl
  have hcomplete : entriesComplete inner = true := List.all_eq_true.2 hsome
  rw [resolveStripped_enclosed (enclosed?_group hn .curly)]
  simp only [hfor, hentries, hcomplete, Bool.false_eq_true, ite_false, ite_true]
  exact bind_pure_comp _ _

end Levels

/-! ### Newlines at the ends of expressions in brackets -/

section Ends

variable {p : Token → Prop} {ts us : List Token}

theorem stripNewlines_of_closing (b c : Bracket) (ts : List Token) :
    stripNewlines (.opening b :: (ts ++ [.closing c])) = .opening b :: (ts ++ [.closing c]) := by
  have hlast : (Token.opening b :: (ts ++ [.closing c])).getLast? = some (.closing c) := by
    rw [← List.cons_append, List.getLast?_concat]
  refine trim_eq_self (by simp [isNewline]) fun t ht => ?_
  rw [hlast] at ht
  obtain rfl := Option.mem_some.1 ht
  rfl

theorem resolve_group (b : Bracket) (ts : List Token) :
    resolve (.opening b :: (ts ++ [.closing b])) = resolveStripped (.opening b :: (ts ++ [.closing b])) := by
  rw [resolve, stripNewlines_of_closing]

/-- A nested run without newlines outside of its brackets has none at its end. -/
theorem NestedOver.getLast?_ne (h : NestedOver p ts) (hp : ∀ t, p t → t ≠ .newline) :
    ∀ t ∈ ts.getLast?, t ≠ .newline := by
  induction h with
  | nil => simp
  | @plain t ts _ ht h ih =>
    cases ts with
    | nil => simpa using hp t ht
    | cons u ts => simpa only [List.getLast?_cons_cons] using ih
  | @group b inner ts _ h ih =>
    cases ts with
    | nil =>
      intro t ht
      rw [← List.cons_append, List.getLast?_concat] at ht
      obtain rfl := Option.mem_some.1 ht
      simp
    | cons u ts =>
      intro t ht
      refine ih t ?_
      rwa [← List.cons_append, List.getLast?_append_of_ne_nil _ (by simp), List.getLast?_cons_cons] at ht

theorem stripNewlines_ne_nil_iff : stripNewlines ts ≠ [] ↔ ∃ l x a, ts = l ++ x :: a ∧ isNewline x = false := by
  constructor
  · intro h
    by_contra hall
    have hall : ∀ x ∈ ts, isNewline x = true := fun x hx => by
      obtain ⟨l, a, hts⟩ := List.append_of_mem hx
      by_contra hx
      exact hall ⟨l, x, a, hts, by simpa using hx⟩
    refine h ?_
    rw [stripNewlines, trim, trimStart, List.dropWhile_eq_nil_iff.2 hall]
    rfl
  · rintro ⟨l, x, a, rfl, hx⟩
    rw [stripNewlines, trim_around hx]
    simp

/-- A nested run without newlines outside of its brackets has none at its ends. -/
theorem stripNewlines_of_over (h : NestedOver p ts) (hp : ∀ t, p t → t ≠ .newline) : stripNewlines ts = ts := by
  refine trim_eq_self (fun t ht => ?_) fun t ht => ?_
  · cases h with
    | nil => simp at ht
    | plain _ hu _ =>
      obtain rfl := Option.some.inj ht
      simpa [isNewline] using hp _ hu
    | group =>
      obtain rfl := Option.some.inj ht
      rfl
  · simpa [isNewline] using NestedOver.getLast?_ne h hp t ht

theorem isFor_eq_false (h : ∀ t ∈ ts.head?, t ≠ .identifier "for") : isFor ts = false := by
  unfold isFor
  split
  · next name us =>
    have hn : name ≠ "for" := fun hn => h _ rfl (hn ▸ rfl)
    simpa using hn
  · rfl

/-- What comes first decides whether tokens start a `for` expression. -/
theorem isFor_stripNewlines_append (h : stripNewlines ts ≠ []) :
    isFor (stripNewlines (ts ++ us)) = isFor (stripNewlines ts) := by
  obtain ⟨l, x, a, rfl, hx⟩ := stripNewlines_ne_nil_iff.1 h
  rw [stripNewlines, stripNewlines, List.append_assoc, List.cons_append, trim_around hx, trim_around hx]
  cases trimStart isNewline l with
  | nil => cases x <;> rfl
  | cons t l => cases t <;> rfl

end Ends

/-! ### Lists -/

/-- An item of a list: nested, without commas outside of its brackets, and more than newlines. -/
structure IsItem (e : List Token) : Prop where
  nested : NestedOver (· ≠ .comma) e
  ne_nil : stripNewlines e ≠ []

section Lists

variable {e : List Token} {es : List (List Token)} {trailing : List Token}

theorem nested_intercalate (h : ∀ e ∈ es, Nested e) : Nested ([Token.comma].intercalate es) := by
  induction es with
  | nil => exact .nil
  | cons e es ih =>
    obtain ⟨he, hes⟩ := List.forall_mem_cons.1 h
    cases es with
    | nil => rwa [List.intercalate_singleton]
    | cons f es =>
      rw [List.intercalate_cons_cons]
      exact (he.append (.plain rfl .nil)).append (ih hes)

/-- A comma behind the last item starts one more part, with nothing in it. -/
theorem parts_items (h : ∀ e ∈ es, NestedOver (separatesItems · = false) e) (hne : es ≠ [])
    (ht : trailing = [] ∨ trailing = [.comma]) :
    ∃ rest, (rest = [] ∨ rest = [[]]) ∧
      parts separatesItems 0 ([Token.comma].intercalate es ++ trailing) = es ++ rest := by
  have hs : ∀ b, separatesItems (.closing b) = false := fun _ => rfl
  have hp : parts separatesItems 0 ([Token.comma].intercalate es) = es := parts_intercalate hs rfl rfl hne h
  rcases ht with rfl | rfl
  · exact ⟨[], .inl rfl, by rw [List.append_nil, List.append_nil, hp]⟩
  · refine ⟨[[]], .inr rfl, ?_⟩
    have hcomma : parts separatesItems 0 [.comma] = [[], []] := rfl
    have hn : Nested ([Token.comma].intercalate es) := nested_intercalate fun e he => (h e he).nested
    obtain ⟨es, l, rfl⟩ := (List.eq_nil_or_concat' es).resolve_left hne
    rw [parts_glue hs hn, hp, hcomma, glue_concat, List.append_nil, List.append_assoc]
    rfl

/-- The value of a list is made of those of its items. -/
theorem resolve_list (h : ∀ f ∈ e :: es, IsItem f) (hfor : isFor (stripNewlines e) = false)
    (ht : trailing = [] ∨ trailing = [.comma]) :
    resolve (.opening .square :: (([Token.comma].intercalate (e :: es) ++ trailing) ++ [.closing .square])) =
      ((e :: es).mapM resolve).map .list := by
  have hover : ∀ f ∈ e :: es, NestedOver (separatesItems · = false) f := fun f hf =>
    (h f hf).nested.mono fun t ht => by simpa [separatesItems] using ht
  have hn : Nested ([Token.comma].intercalate (e :: es) ++ trailing) := by
    refine (nested_intercalate fun f hf => (h f hf).nested.nested).append ?_
    rcases ht with rfl | rfl
    · exact .nil
    · exact .plain rfl .nil
  -- the first item comes first
  obtain ⟨us, hus⟩ : ∃ us, [Token.comma].intercalate (e :: es) ++ trailing = e ++ us := by
    cases es with
    | nil => exact ⟨trailing, by rw [List.intercalate_singleton]⟩
    | cons f es => exact ⟨_, by rw [List.intercalate_cons_cons, List.append_assoc, List.append_assoc]⟩
  have he : stripNewlines e ≠ [] := (h e List.mem_cons_self).ne_nil
  have hne : stripNewlines ([Token.comma].intercalate (e :: es) ++ trailing) ≠ [] := by
    obtain ⟨l, x, a, rfl, hx⟩ := stripNewlines_ne_nil_iff.1 he
    exact stripNewlines_ne_nil_iff.2 ⟨l, x, a ++ us, by rw [hus, List.append_assoc, List.cons_append], hx⟩
  obtain ⟨rest, hrest, hp⟩ := parts_items hover (List.cons_ne_nil e es) ht
  have hstripped : strippedParts separatesItems ([Token.comma].intercalate (e :: es) ++ trailing) =
      (e :: es).map stripNewlines ++ rest := by
    rw [strippedParts, hp, List.map_append]
    rcases hrest with rfl | rfl <;> rfl
  rw [resolve_group, resolveStripped_items hn hne (by rwa [hus, isFor_stripNewlines_append he])
    hstripped (List.forall_mem_map.2 fun f hf => (h f hf).ne_nil) hrest, List.mapM_map]
  rfl

end Lists

/-! ### Maps -/

/-- An entry of a map: a token that is a key, a sign behind it, and an expression that has no comma and no newline
outside of its brackets. -/
structure MapEntry where
  name : Token
  key : String
  sign : Token
  value : List Token
  key_eq : key? name = some key
  sign_eq : sign = .equals ∨ sign = .colon
  nested : NestedOver (fun t => t ≠ .comma ∧ t ≠ .newline) value
  value_ne : value ≠ []

/-- The tokens of an entry. -/
def MapEntry.tokens (e : MapEntry) : List Token :=
  e.name :: e.sign :: e.value

/-- Entries with commas and newlines around them, at least one between two entries. -/
inductive MapBody : List MapEntry → List Token → Prop
  | nil : MapBody [] []
  | separator {es : List MapEntry} {t : Token} {ts : List Token} (ht : t = .comma ∨ t = .newline)
      (h : MapBody es ts) : MapBody es (t :: ts)
  | entry {es : List MapEntry} {ts : List Token} (e : MapEntry) (hs : ∀ t ∈ ts.head?, t = .comma ∨ t = .newline)
      (h : MapBody es ts) : MapBody (e :: es) (e.tokens ++ ts)

section Maps

variable {es : List MapEntry} {ts : List Token}

theorem isBracket_of_key? {t : Token} {key : String} (h : key? t = some key) : t.isBracket = false := by
  cases t <;> simp_all [key?, Token.isBracket]

theorem MapEntry.over (e : MapEntry) : NestedOver (fun t => t ≠ .comma ∧ t ≠ .newline) e.tokens := by
  have hname : e.name ≠ .comma ∧ e.name ≠ .newline := by
    constructor <;> (intro h; simpa [h, key?] using e.key_eq)
  refine .plain (isBracket_of_key? e.key_eq) hname ?_
  rcases e.sign_eq with h | h
  · exact h ▸ .plain rfl (by simp) e.nested
  · exact h ▸ .plain rfl (by simp) e.nested

theorem MapEntry.strip_tokens (e : MapEntry) : stripNewlines e.tokens = e.tokens :=
  stripNewlines_of_over e.over fun _ h => h.2

theorem MapEntry.entryOf?_tokens (e : MapEntry) : entryOf? e.tokens = some (e.key, e.value) := by
  obtain ⟨t, us, hv⟩ := List.exists_cons_of_ne_nil e.value_ne
  simp [MapEntry.tokens, hv, entryOf?, e.sign_eq, e.key_eq]

theorem MapBody.nested (h : MapBody es ts) : Nested ts := by
  induction h with
  | nil => exact .nil
  | separator ht _ ih =>
    refine .plain ?_ ih
    rcases ht with rfl | rfl <;> rfl
  | entry e _ _ ih => exact e.over.nested.append ih

theorem entryParts_separator {t : Token} (ht : t = .comma ∨ t = .newline) (ts : List Token) :
    entryParts (t :: ts) = entryParts ts := by
  have hp : parts separatesEntries 0 (t :: ts) = [] :: parts separatesEntries 0 ts := by
    rcases ht with rfl | rfl <;> exact parts_separator rfl rfl
  rw [entryParts, strippedParts, hp]
  rfl

/-- The parts of a map are its entries. -/
theorem MapBody.entryParts_eq (h : MapBody es ts) : entryParts ts = es.map MapEntry.tokens := by
  induction h with
  | nil => rfl
  | separator ht _ ih => rw [entryParts_separator ht, ih]
  | @entry es ts e hs h ih =>
    have hover : NestedOver (separatesEntries · = false) e.tokens :=
      e.over.mono fun t ht => by simpa [separatesEntries] using ht
    -- what follows is nothing, or starts with a separator
    have hp : ∃ ps, parts separatesEntries 0 (e.tokens ++ ts) = e.tokens :: ps ∧
        (ps.map stripNewlines).filter (!·.isEmpty) = entryParts ts := by
      rw [parts_append (fun _ => rfl) hover]
      cases ts with
      | nil => exact ⟨[], by simp [parts, ontoFirst], rfl⟩
      | cons t ts =>
        refine ⟨parts separatesEntries 0 ts, ?_, (entryParts_separator (hs t rfl) ts).symm⟩
        rcases hs t rfl with rfl | rfl <;> rw [parts_separator rfl rfl] <;> simp [ontoFirst]
    obtain ⟨ps, hp, hrest⟩ := hp
    rw [entryParts, strippedParts, hp, List.map_cons, e.strip_tokens, List.filter_cons_of_pos (by rfl), hrest, ih,
      List.map_cons]

theorem MapBody.isFor (h : MapBody es ts) (hfor : ∀ e ∈ es.head?, e.name ≠ .identifier "for") :
    isFor (stripNewlines ts) = false := by
  induction h with
  | nil => rfl
  | @separator es t ts ht h ih =>
    rcases ht with rfl | rfl
    · have hstrip : stripNewlines (.comma :: ts) = .comma :: trimEnd isNewline ts := trim_around rfl [] ts
      rw [hstrip]
      rfl
    · have hstrip : stripNewlines (.newline :: ts) = stripNewlines ts := rfl
      rw [hstrip, ih hfor]
  | entry e _ _ _ =>
    have hne : stripNewlines e.tokens ≠ [] := by rw [e.strip_tokens]; exact List.cons_ne_nil _ _
    rw [isFor_stripNewlines_append hne, e.strip_tokens]
    exact isFor_eq_false fun t ht => Option.some.inj ht ▸ hfor e rfl

/-- The value of a map is made of those of its entries. -/
theorem resolve_map (h : MapBody es ts) (hfor : ∀ e ∈ es.head?, e.name ≠ .identifier "for") :
    resolve (.opening .curly :: (ts ++ [.closing .curly])) =
      Except.map (fun ps => .map (Keyed.ofPairs ps)) (es.mapM fun e => return (e.key, ← resolve e.value)) := by
  have hentries : (entryParts ts).map entryOf? = (es.map fun e => (e.key, e.value)).map some := by
    rw [h.entryParts_eq, List.map_map, List.map_map]
    exact List.map_congr_left fun e _ => e.entryOf?_tokens
  have hvalue (e : MapEntry) : resolve e.value = resolveStripped e.value := by
    rw [resolve, stripNewlines_of_over e.nested fun _ h => h.2]
  rw [resolve_group, resolveStripped_entries h.nested (h.isFor hfor) hentries, List.mapM_map]
  simp only [hvalue]
  rfl

end Maps

/-! ### Composition -/

section Composition

theorem forall₂_of_mapM_ok {α β ε : Type} {f : α → Except ε β} {l : List α} {bs : List β} (h : l.mapM f = .ok bs) :
    List.Forall₂ (fun a b => f a = .ok b) l bs := by
  induction l generalizing bs with
  | nil =>
    cases h
    exact .nil
  | cons a l ih =>
    rw [List.mapM_cons] at h
    obtain ⟨b, hb, h⟩ := Document.eq_ok_of_bind h
    obtain ⟨cs, hcs, h⟩ := Document.eq_ok_of_bind h
    cases h
    exact .cons hb (ih hcs)

/-- Parentheses do not change the value. -/
theorem resolve_round {ts : List Token} (h : Nested ts) :
    resolve (.opening .round :: (ts ++ [.closing .round])) = resolve ts := by
  rw [resolve_group, resolveStripped_enclosed (enclosed?_group h .round)]
  rfl

/-- The values of lists, maps and parentheses of readable tokens: a list has the values of its items, a map those of
its entries, where a known key keeps its place and takes the last value, and parentheses that of what they enclose. -/
theorem resolve_composition :
    (∀ (e : List Token) (es : List (List Token)) (trailing : List Token),
      (∀ f ∈ e :: es, IsItem f ∧ ∀ t ∈ f, t.Readable) → (stripNewlines e).head? ≠ some (.identifier "for") →
      trailing = [] ∨ trailing = [.comma] →
      ∃ vs, List.Forall₂ (fun f v => resolve f = .ok v) (e :: es) vs ∧
        resolve (.opening .square :: (([Token.comma].intercalate (e :: es) ++ trailing) ++ [.closing .square])) =
          .ok (.list vs)) ∧
    (∀ (es : List MapEntry) (ts : List Token), MapBody es ts →
      (∀ e ∈ es.head?, e.name ≠ .identifier "for") → (∀ e ∈ es, ∀ t ∈ e.value, t.Readable) →
      ∃ ps m, List.Forall₂ (fun e p => p.1 = e.key ∧ resolve e.value = .ok p.2) es ps ∧
        resolve (.opening .curly :: (ts ++ [.closing .curly])) = .ok (.map m) ∧
        m.map Prod.fst = (es.map MapEntry.key).eraseDups ∧ ∀ key, m.lookup key = ps.reverse.lookup key) ∧
    ∀ ts : List Token, Nested ts → resolve (.opening .round :: (ts ++ [.closing .round])) = resolve ts := by
  refine ⟨fun e es trailing h hfor ht => ?_, fun es ts h hfor hr => ?_, fun ts => resolve_round⟩
  · have hfor' : isFor (stripNewlines e) = false :=
      isFor_eq_false fun t ht hf => hfor (by rw [Option.mem_def.1 ht, hf])
    obtain ⟨vs, hvs⟩ : ∃ vs, (e :: es).mapM resolve = .ok vs := exists_mapM_ok fun f hf => resolve_ok (h f hf).2
    refine ⟨vs, forall₂_of_mapM_ok hvs, ?_⟩
    rw [resolve_list (fun f hf => (h f hf).1) hfor' ht, hvs]
    rfl
  · obtain ⟨ps, hps⟩ : ∃ ps, (es.mapM fun e => return (e.key, ← resolve e.value)) = .ok ps := by
      refine exists_mapM_ok fun e he => ?_
      obtain ⟨v, hv⟩ := resolve_ok (hr e he)
      exact ⟨(e.key, v), by rw [hv]; rfl⟩
    have hvalues : List.Forall₂ (fun e p => p.1 = e.key ∧ resolve e.value = .ok p.2) es ps := by
      refine (forall₂_of_mapM_ok hps).imp fun e p hp => ?_
      obtain ⟨v, hv, hp⟩ := Document.eq_ok_of_bind hp
      cases hp
      exact ⟨rfl, hv⟩
    have hkeys : ps.map Prod.fst = es.map MapEntry.key := by
      clear hps hr hfor h
      induction hvalues with
      | nil => rfl
      | cons hep _ ih => rw [List.map_cons, List.map_cons, hep.1, ih]
    refine ⟨ps, Keyed.ofPairs ps, hvalues, ?_, ?_, Keyed.lookup_ofPairs ps⟩
    · rw [resolve_map h hfor, hps]
      rfl
    · rw [Keyed.map_fst_ofPairs, hkeys]

theorem resolve_composition_repeated :
    (∃ vs, List.Forall₂ (fun f v => resolve f = .ok v) [[.identifier "x"], [.newline, .number "1"]] vs ∧
      resolve [.opening .square, .identifier "x", .comma, .newline, .number "1", .comma, .closing .square] =
        .ok (.list vs)) ∧
    (∃ m, resolve [.opening .curly, .identifier "a", .equals, .number "1", .comma, .newline, .string "b" false, .colon,
        .number "2", .newline, .identifier "a", .equals, .identifier "x", .closing .curly] = .ok (.map m) ∧
      m.map Prod.fst = ["a", "b"]) ∧
    resolve [.opening .round, .newline, .number "1", .closing .round] = resolve [.newline, .number "1"] := by
  refine ⟨?_, ?_, ?_⟩
  · refine resolve_composition.1 [.identifier "x"] [[.newline, .number "1"]] [.comma] ?_ (by decide) (.inr rfl)
    have h1 : IsItem [.identifier "x"] := ⟨.plain rfl (by simp) .nil, by decide⟩
    have h2 : IsItem [.newline, .number "1"] := ⟨.plain rfl (by simp) (.plain rfl (by simp) .nil), by decide⟩
    have hr : Token.Readable (.number "1") := fun _ => by decide
    exact List.forall_mem_cons.2 ⟨⟨h1, by simp [Token.Readable]⟩,
      List.forall_mem_cons.2 ⟨⟨h2, List.forall_mem_cons.2 ⟨trivial, List.forall_mem_cons.2 ⟨hr, by simp⟩⟩⟩, by simp⟩⟩
  · have hn (t : Token) (hb : t.isBracket = false) (ht : t ≠ .comma ∧ t ≠ .newline) :
        NestedOver (fun t => t ≠ .comma ∧ t ≠ .newline) [t] := .plain hb ht .nil
    let a : MapEntry := ⟨.identifier "a", "a", .equals, [.number "1"], rfl, .inl rfl, hn _ rfl (by simp), by simp⟩
    let b : MapEntry := ⟨.string "b" false, "b", .colon, [.number "2"], rfl, .inr rfl, hn _ rfl (by simp), by simp⟩
    let c : MapEntry := ⟨.identifier "a", "a", .equals, [.identifier "x"], rfl, .inl rfl, hn _ rfl (by simp), by simp⟩
    have hc : MapBody [c] c.tokens := .entry c (by simp) .nil
    have hb : MapBody [b, c] (b.tokens ++ .newline :: c.tokens) := .entry b (by simp) (.separator (.inr rfl) hc)
    have ha : MapBody [a, b, c] (a.tokens ++ .comma :: .newline :: (b.tokens ++ .newline :: c.tokens)) :=
      .entry a (by simp) (.separator (.inl rfl) (.separator (.inr rfl) hb))
    have hr1 : Token.Readable (.number "1") := fun _ => by decide
    have hr2 : Token.Readable (.number "2") := fun _ => by decide
    obtain ⟨ps, m, -, hm, hkeys, -⟩ := resolve_composition.2.1 [a, b, c] _ ha (by simp [a]) (by
      simp only [a, b, c, List.forall_mem_cons, List.not_mem_nil, false_imp_iff, implies_true, and_true]
      exact ⟨hr1, hr2, trivial⟩)
    exact ⟨m, hm, hkeys.trans (show ["a", "b", "a"].eraseDups = ["a", "b"] by decide)⟩
  · exact resolve_composition.2.2 [.newline, .number "1"] (.plain rfl (.plain rfl .nil))

end Composition

/-! ### Parts without newlines -/

/-- Tokens that stand between separators: nested, with no separator outside of brackets, and nowhere a newline or
the word `for`. -/
structure IsPart (ts : List Token) : Prop where
  nested : NestedOver (fun t => t ≠ .comma ∧ t ≠ .newline) ts
  ne_nil : ts ≠ []
  mem : ∀ t ∈ ts, t ≠ .newline ∧ t ≠ .identifier "for"

section Collections

variable {ts : List Token} {es : List (List Token)}

theorem mem_intercalate {t : Token} (h : t ∈ [Token.comma].intercalate es) : t = .comma ∨ ∃ e ∈ es, t ∈ e := by
  induction es with
  | nil => simp at h
  | cons e es ih =>
    cases es with
    | nil => exact .inr ⟨e, List.mem_cons_self, by rwa [List.intercalate_singleton] at h⟩
    | cons f es =>
      rw [List.intercalate_cons_cons, List.append_assoc, List.mem_append, List.mem_append, List.mem_singleton] at h
      obtain h | h | h := h
      · exact .inr ⟨e, List.mem_cons_self, h⟩
      · exact .inl h
      · exact (ih h).imp_right fun ⟨g, hg, ht⟩ => ⟨g, List.mem_cons_of_mem _ hg, ht⟩

/-- Parts joined by commas hold no newline and start no `for` expression. -/
theorem mem_intercalate_parts (h : ∀ e ∈ es, IsPart e) {t : Token} (ht : t ∈ [Token.comma].intercalate es) :
    t ≠ .newline ∧ t ≠ .identifier "for" := by
  obtain rfl | ⟨e, he, ht⟩ := mem_intercalate ht
  · simp
  · exact (h e he).mem t ht

/-- Parts joined by commas are cut into the parts again, whether commas separate or newlines as well. -/
theorem strippedParts_intercalate {sep : Token → Bool} (hs : ∀ t, sep t = true → t = .comma ∨ t = .newline)
    (hc : sep .comma = true) (hne : es ≠ []) (h : ∀ e ∈ es, IsPart e) :
    strippedParts sep ([Token.comma].intercalate es) = es := by
  have hplain {t : Token} (ht : t ≠ .comma ∧ t ≠ .newline) : sep t = false := by
    by_contra hsep
    rcases hs t (by simpa using hsep) with rfl | rfl
    · exact ht.1 rfl
    · exact ht.2 rfl
  rw [strippedParts, parts_intercalate (fun b => hplain (by simp)) rfl hc hne
    fun e he => (h e he).nested.mono fun t => hplain]
  refine (List.map_congr_left fun e he => ?_).trans (List.map_id es)
  exact stripNewlines_of_mem fun t ht => ((h e he).mem t ht).1

/-- The value of a list is made of those of its items. -/
theorem resolveStripped_list {vs : List Value} (h : ∀ e ∈ es, IsPart e)
    (hv : es.mapM resolveStripped = .ok vs) :
    resolveStripped (.opening .square :: ([Token.comma].intercalate es ++ [.closing .square])) =
      .ok (.list vs) := by
  have hmem {t : Token} := mem_intercalate_parts h (t := t)
  have hn : Nested ([Token.comma].intercalate es) := nested_intercalate fun e he => (h e he).nested.nested
  have hstrip : stripNewlines ([Token.comma].intercalate es) = [Token.comma].intercalate es :=
    stripNewlines_of_mem fun t ht => (hmem ht).1
  by_cases hne : es = []
  · subst hne
    cases hv
    rw [resolveStripped_enclosed (enclosed?_group hn .square)]
    rfl
  have hp : strippedParts separatesItems ([Token.comma].intercalate es) = es :=
    strippedParts_intercalate (by simp [separatesItems]) rfl hne h
  have he : [Token.comma].intercalate es ≠ [] := fun he => by
    rw [he] at hp
    exact (h [] (hp ▸ List.mem_cons_self)).ne_nil rfl
  have hfor : isFor ([Token.comma].intercalate es) = false :=
    isFor_eq_false fun t ht => (hmem (List.mem_of_head? ht)).2
  rw [resolveStripped_items hn (hstrip.symm ▸ he) (hstrip.symm ▸ hfor)
    (hp.trans (List.append_nil es).symm) (fun e he => (h e he).ne_nil) (.inl rfl), hv]
  rfl

/-- The tokens of an entry with its key between quotes. -/
def entryTokens (e : String × List Token) : List Token :=
  .string e.1 false :: .equals :: e.2

theorem isPart_entryTokens {e : String × List Token} (h : IsPart e.2) : IsPart (entryTokens e) where
  nested := .plain rfl (by simp) (.plain rfl (by simp) h.nested)
  ne_nil := by simp [entryTokens]
  mem := List.forall_mem_cons.2 ⟨by simp, List.forall_mem_cons.2 ⟨by simp, h.mem⟩⟩

theorem entryOf?_entryTokens {e : String × List Token} (h : e.2 ≠ []) : entryOf? (entryTokens e) = some e := by
  obtain ⟨key, ts⟩ := e
  obtain ⟨t, us, rfl⟩ := List.exists_cons_of_ne_nil h
  simp [entryTokens, entryOf?, key?]

/-- The value of a map is made of those of its entries, if their keys are distinct. -/
theorem resolveStripped_map {ps : List (String × List Token)} {vs : List (String × Value)}
    (hd : (vs.map Prod.fst).Nodup) (h : ∀ e ∈ ps, IsPart e.2)
    (hv : ps.mapM (fun (key, q) => return (key, ← resolveStripped q)) = .ok vs) :
    resolveStripped (.opening .curly :: ([Token.comma].intercalate (ps.map entryTokens) ++ [.closing .curly])) =
      .ok (.map vs) := by
  have hes : ∀ e ∈ ps.map entryTokens, IsPart e := List.forall_mem_map.2 fun e he => isPart_entryTokens (h e he)
  have hmem {t : Token} := mem_intercalate_parts hes (t := t)
  have hn : Nested ([Token.comma].intercalate (ps.map entryTokens)) :=
    nested_intercalate fun e he => (hes e he).nested.nested
  have hparts : entryParts ([Token.comma].intercalate (ps.map entryTokens)) = ps.map entryTokens := by
    by_cases hne : ps.map entryTokens = []
    · rw [hne]
      rfl
    · rw [entryParts, strippedParts_intercalate (by simp [separatesEntries]) rfl hne hes]
      exact List.filter_eq_self.2 fun e he => by simpa using (hes e he).ne_nil
  have hentries : (entryParts ([Token.comma].intercalate (ps.map entryTokens))).map entryOf? = ps.map some := by
    rw [hparts, List.map_map]
    exact List.map_congr_left fun e he => entryOf?_entryTokens (h e he).ne_nil
  have hstrip : stripNewlines ([Token.comma].intercalate (ps.map entryTokens)) =
      [Token.comma].intercalate (ps.map entryTokens) := stripNewlines_of_mem fun t ht => (hmem ht).1
  have hfor : isFor ([Token.comma].intercalate (ps.map entryTokens)) = false :=
    isFor_eq_false fun t ht => (hmem (List.mem_of_head? ht)).2
  rw [resolveStripped_entries hn (hstrip.symm ▸ hfor) hentries, hv]
  exact congrArg (fun m => Except.ok (Value.map m)) (Keyed.ofPairs_of_nodup hd)

end Collections

end InfraAudit.Hcl.Expression
