import InfraAudit.Proofs.Hcl.Placement
import InfraAudit.Proofs.Hcl.Resolution

/-!
# InfraAudit.Proofs.Hcl.Grammar — the grammar of files

* `Items ts items rest`: the tokens `ts` start with the given items, behind which `rest` is left.  A file is a text
  whose items leave nothing.
* `Denotes`: the attributes and the blocks that items stand for, with their values and ranges.
* `step_inv`: what one step of the reader can do.
* `run_items`: the reader runs through items and adds what they denote.
* `closings_of_run`: what the reader accepts are items, with a closing brace for every open block.
* `run_iff_items`: a file is read if and only if the grammar derives it, and read as what it denotes.
-/

namespace InfraAudit.Hcl.Document

/-! ### The grammar -/

/-- An item of a body: an attribute with the line of its name and the tokens of its expression, or a block with the
line of its kind and that of its closing brace. -/
inductive Item
  | assignment (name : String) (line : Nat) (value : List PlacedToken)
  | block (kind : String) (line : Nat) (labels : List String) (body : List Item) (last : Nat)

/-- The names that the attributes of a body have. -/
def attributeNames : List Item → List String
  | [] => []
  | .assignment name _ _ :: items => name :: attributeNames items
  | .block _ _ _ _ _ :: items => attributeNames items

/-- Labels: identifiers and strings without template sequences. -/
inductive Labels : List PlacedToken → List String → List PlacedToken → Prop
  | nil {ts : List PlacedToken} : Labels ts [] ts
  | identifier {t : PlacedToken} {ts rest : List PlacedToken} {name : String} {names : List String}
      (ht : t.token = .identifier name) (h : Labels ts names rest) : Labels (t :: ts) (name :: names) rest
  | string {t : PlacedToken} {ts rest : List PlacedToken} {value : String} {names : List String}
      (ht : t.token = .string value false) (h : Labels ts names rest) : Labels (t :: ts) (value :: names) rest

/-- The items of a body.  An attribute is a name, an equals sign and a nested run of tokens without a newline
outside its brackets, up to a newline, a closing brace or the end; a block is a kind, labels and a body in braces,
in which no two attributes have the same name. -/
inductive Items : List PlacedToken → List Item → List PlacedToken → Prop
  | nil {ts : List PlacedToken} : Items ts [] ts
  | newline {t : PlacedToken} {ts rest : List PlacedToken} {items : List Item}
      (ht : t.token = .newline) (h : Items ts items rest) : Items (t :: ts) items rest
  | assignment {k e : PlacedToken} {value ts rest : List PlacedToken} {name : String} {items : List Item}
      (hk : k.token = .identifier name) (he : e.token = .equals) (hv : value ≠ [])
      (hn : NestedOver (· ≠ .newline) (value.map PlacedToken.token)) (hs : EndsExpression ts)
      (h : Items ts items rest) :
      Items (k :: e :: (value ++ ts)) (.assignment name k.start.line value :: items) rest
  | block {k o c : PlacedToken} {ts body after rest : List PlacedToken} {kind : String} {names : List String}
      {inner items : List Item} (hk : k.token = .identifier kind) (hl : Labels ts names (o :: body))
      (ho : o.token = .opening .curly) (hb : Items body inner (c :: after)) (hc : c.token = .closing .curly)
      (hd : (attributeNames inner).Nodup) (h : Items after items rest) :
      Items (k :: ts) (.block kind k.start.line names inner c.start.line :: items) rest

/-- The greatest of the last lines of tokens. -/
def lastLine (ts : List PlacedToken) : Nat :=
  ts.foldl (fun n t => max n t.endLine) 0

/-- The range of the given lines of a file. -/
def Covers (filename : String) (first last : Nat) (r : SourceRange) : Prop :=
  r.filename = filename ∧ r.startLine = first ∧ r.endLine = last

/-- The attributes and the blocks that the items of a body stand for, in order. -/
inductive Denotes (filename : String) : List Item → List Attribute → List Block → Prop
  | nil : Denotes filename [] [] []
  | assignment {name : String} {line : Nat} {value : List PlacedToken} {items : List Item} {v : Value}
      {lines : SourceRange} {as : List Attribute} {bs : List Block}
      (hv : Expression.resolve (value.map PlacedToken.token) = .ok v)
      (hl : Covers filename line (lastLine value) lines) (h : Denotes filename items as bs) :
      Denotes filename (.assignment name line value :: items) (⟨name, v, lines⟩ :: as) bs
  | block {kind : String} {line last : Nat} {labels : List String} {body items : List Item}
      {lines : SourceRange} {inner as : List Attribute} {children bs : List Block}
      (hb : Denotes filename body inner children) (hl : Covers filename line last lines)
      (h : Denotes filename items as bs) :
      Denotes filename (.block kind line labels body last :: items) as
        (⟨kind, labels, lines, inner, children⟩ :: bs)

section Grammar

variable {filename : String} {ts rest : List PlacedToken} {items : List Item} {names : List String}

theorem Labels.suffix (h : Labels ts names rest) : rest <:+ ts := by
  induction h with
  | nil => exact List.suffix_refl _
  | identifier _ _ ih => exact ih.trans (List.suffix_cons _ _)
  | string _ _ ih => exact ih.trans (List.suffix_cons _ _)

theorem Items.suffix (h : Items ts items rest) : rest <:+ ts := by
  induction h with
  | nil => exact List.suffix_refl _
  | newline _ _ ih => exact ih.trans (List.suffix_cons _ _)
  | assignment _ _ _ _ _ _ ih =>
    exact (ih.trans (List.suffix_append _ _)).trans ((List.suffix_cons _ _).trans (List.suffix_cons _ _))
  | block _ hl _ _ _ _ _ ihb ih =>
    have h1 := (List.suffix_cons _ _).trans hl.suffix
    have h2 := ((List.suffix_cons _ _).trans ihb).trans h1
    exact (ih.trans h2).trans (List.suffix_cons _ _)

theorem le_lastLine {t : PlacedToken} (h : t ∈ ts) : t.endLine ≤ lastLine ts := by
  have key (n : Nat) : n ≤ ts.foldl (fun n t => max n t.endLine) n ∧
      ∀ t ∈ ts, t.endLine ≤ ts.foldl (fun n t => max n t.endLine) n := by
    clear h
    induction ts generalizing n with
    | nil => simp
    | cons u ts ih =>
      obtain ⟨h1, h2⟩ := ih (max n u.endLine)
      rw [List.foldl_cons]
      refine ⟨by omega, fun t ht => ?_⟩
      rcases List.mem_cons.1 ht with rfl | ht
      · omega
      · exact h2 t ht
  exact (key 0).2 t h

theorem range_ok {first last : Nat} (hf : filename ≠ "") (h1 : 1 ≤ first) (h2 : first ≤ last) :
    ∃ r, range filename first last = .ok r ∧ Covers filename first last r := by
  have h3 : ¬ (first : Int) < 1 := by omega
  have h4 : ¬ (last : Int) < first := by omega
  refine ⟨⟨filename, first, last, hf, h1, h2⟩, ?_, rfl, rfl, rfl⟩
  simp [range, SourceRange.make?, hf, h3, h4, Except.mapError]

end Grammar

/-! ### Labels and headers -/

section Header

variable {ts rest body : List PlacedToken} {names : List String} {finish : Position} {kind : String}

theorem labels_of_opening {o : PlacedToken} {b : Bracket} (ho : o.token = .opening b) :
    labels (o :: ts) = .ok ([], o :: ts) := by
  simp [labels, ho]

theorem Labels.labels_eq {o : PlacedToken} {b : Bracket} (h : Labels ts names (o :: rest))
    (ho : o.token = .opening b) : labels ts = .ok (names, o :: rest) := by
  generalize hr : o :: rest = us at h
  induction h with
  | nil =>
    subst hr
    exact labels_of_opening ho
  | identifier ht _ ih => simp [labels, ht, ih hr, Except.map]
  | string ht _ ih => simp [labels, ht, ih hr, Except.map]

theorem labels_inv {x : List String × List PlacedToken} (h : labels ts = .ok x) : Labels ts x.1 x.2 := by
  induction ts generalizing x with
  | nil =>
    cases h
    exact .nil
  | cons t ts ih =>
    simp only [labels] at h
    split at h
    · next ht =>
      obtain ⟨y, hy, rfl⟩ := eq_ok_of_map h
      exact .identifier ht (ih hy)
    · next ht =>
      obtain ⟨y, hy, rfl⟩ := eq_ok_of_map h
      exact .string ht (ih hy)
    · cases h
    · cases h
      exact .nil

theorem Labels.header_eq {o : PlacedToken} (h : Labels ts names (o :: body)) (ho : o.token = .opening .curly) :
    header finish kind ts = .ok (names, body) := by
  obtain ⟨t, p, n⟩ := o
  simp only at ho
  subst ho
  simp only [header, h.labels_eq rfl]
  rfl

theorem header_inv (h : header finish kind ts = .ok (names, body)) :
    ∃ o : PlacedToken, o.token = .opening .curly ∧ Labels ts names (o :: body) := by
  obtain ⟨⟨names', rest⟩, hl, h⟩ := eq_ok_of_bind h
  simp only at h
  split at h
  · cases h
    exact ⟨_, rfl, labels_inv hl⟩
  · cases h

/-- Labels before an opening brace tell a block from an attribute. -/
theorem Labels.startsBlock {o : PlacedToken} (h : Labels ts names (o :: body)) (ho : o.token = .opening .curly) :
    (next? ts).any startsBlock = true ∧ ∀ p n (us : List PlacedToken), ts ≠ ⟨.equals, p, n⟩ :: us := by
  cases h with
  | nil => exact ⟨by simp [next?, ho, Document.startsBlock], by rintro p n us ⟨⟩; cases ho⟩
  | identifier ht _ => exact ⟨by simp [next?, ht, Document.startsBlock], by rintro p n us ⟨⟩; cases ht⟩
  | string ht _ => exact ⟨by simp [next?, ht, Document.startsBlock], by rintro p n us ⟨⟩; cases ht⟩

end Header

/-! ### Steps of the reader -/

/-- An open block without attributes and children. -/
def OpenBlock.opened (kind : String) (labels : List String) (lines : SourceRange) : OpenBlock :=
  ⟨kind, labels, lines, [], []⟩

/-- What one step of the reader can do, whose first token is `t`: skip a newline, close the innermost block, add an
attribute or open a block. -/
inductive Step (filename : String) (finish : Position) (σ : Progress) (t : PlacedToken) :
    List PlacedToken → Progress → List PlacedToken → Prop
  | newline {ts : List PlacedToken} (ht : t.token = .newline) : Step filename finish σ t ts σ ts
  | close {ts : List PlacedToken} {o : OpenBlock} {outer : List OpenBlock} {b : Block}
      (ht : t.token = .closing .curly) (hσ : σ.unclosed = o :: outer) (hb : o.close t.start.line = .ok b) :
      Step filename finish σ t ts ({ σ with unclosed := outer }.addBlock b) ts
  | assignment {name : String} {e : PlacedToken} {ts rest : List PlacedToken} {a : Attribute} {σ' : Progress}
      (ht : t.token = .identifier name) (he : e.token = .equals)
      (hd : definition filename finish name t.start.line ts = .ok (a, rest))
      (ha : σ.addAttribute t.start a = .ok σ') : Step filename finish σ t (e :: ts) σ' rest
  | open {kind : String} {names : List String} {o : PlacedToken} {ts rest : List PlacedToken} {lines : SourceRange}
      (ht : t.token = .identifier kind) (hl : Labels ts names (o :: rest)) (ho : o.token = .opening .curly)
      (hr : range filename t.start.line t.start.line = .ok lines) :
      Step filename finish σ t ts { σ with unclosed := .opened kind names lines :: σ.unclosed } rest

section Steps

variable {filename : String} {finish : Position} {σ σ' : Progress} {t : PlacedToken} {ts rest : List PlacedToken}

theorem step_inv (h : step filename finish σ t ts = .ok (σ', rest)) : Step filename finish σ t ts σ' rest := by
  unfold step at h
  split at h
  · next ht =>
    cases h
    exact .newline ht
  · next ht =>
    split at h
    · cases h
    · next hσ =>
      obtain ⟨b, hb, h⟩ := eq_ok_of_bind h
      cases h
      exact .close ht hσ hb
  · next ht =>
    split at h
    · obtain ⟨⟨a, rest⟩, hd, h⟩ := eq_ok_of_bind h
      obtain ⟨σ', ha, h⟩ := eq_ok_of_bind h
      cases h
      exact .assignment ht rfl hd ha
    · split at h
      · obtain ⟨⟨names, rest⟩, hh, h⟩ := eq_ok_of_bind h
        obtain ⟨lines, hr, h⟩ := eq_ok_of_bind h
        cases h
        obtain ⟨o, ho, hl⟩ := header_inv hh
        exact .open ht hl ho hr
      · cases h
  · cases h

/-- The four cases are what the step does. -/
theorem Step.step_eq (h : Step filename finish σ t ts σ' rest) : step filename finish σ t ts = .ok (σ', rest) := by
  cases h with
  | newline ht => simp [step, ht]
  | close ht hσ hb =>
    simp only [step, ht, hσ, hb]
    rfl
  | @assignment _ e _ _ _ _ ht he hd ha =>
    obtain ⟨e, p, n⟩ := e
    simp only at he
    subst he
    simp only [step, ht, hd]
    simp only [bind, Except.bind, ha]
    rfl
  | «open» ht hl ho hr =>
    -- the second fact lets the case of an equals sign be ruled out
    obtain ⟨hs, hne⟩ := hl.startsBlock ho
    simp only [step, ht, hs, ite_true, hl.header_eq ho, hr]
    rfl

theorem run_of_step (h : Step filename finish σ t ts σ' rest) :
    run filename finish σ (t :: ts) = run filename finish σ' rest := by
  have hs := h.step_eq
  rw [run]
  split
  · next he =>
    rw [hs] at he
    cases he
  · next he =>
    rw [hs] at he
    cases he
    rfl

end Steps

/-! ### Adding what a body denotes -/

/-- The warning about an attribute outside of blocks. -/
def ignored (a : Attribute) : Warning :=
  .topLevelAttribute a.range.filename a.range.startLine a.name

/-- The names of the attributes of an open block. -/
def OpenBlock.names (o : OpenBlock) : List String :=
  o.attributes.map Attribute.name

namespace Progress

/-- Attributes and blocks added to the innermost open block; outside of blocks the attributes are ignored. -/
def extend (σ : Progress) (as : List Attribute) (bs : List Block) : Progress :=
  match σ.unclosed with
  | [] => { σ with done := σ.done ++ bs, warnings := σ.warnings ++ as.map ignored }
  | o :: outer =>
    { σ with unclosed := { o with attributes := o.attributes ++ as, children := o.children ++ bs } :: outer }

/-- Whether attributes of the given names can be added to the innermost open block. -/
def Admits (σ : Progress) (names : List String) : Prop :=
  ∀ o ∈ σ.unclosed.head?, (o.names ++ names).Nodup

variable {σ : Progress} {as as' : List Attribute} {bs bs' : List Block} {names : List String}

theorem extend_nil : σ.extend [] [] = σ := by
  obtain ⟨u, d, w⟩ := σ
  cases u <;> simp [extend]

theorem extend_extend : (σ.extend as bs).extend as' bs' = σ.extend (as ++ as') (bs ++ bs') := by
  obtain ⟨u, d, w⟩ := σ
  cases u <;> simp [extend]

theorem addBlock_eq (b : Block) : σ.addBlock b = σ.extend [] [b] := by
  obtain ⟨u, d, w⟩ := σ
  cases u <;> simp [extend, addBlock]

theorem admits_extend : (σ.extend as bs).Admits names ↔ σ.Admits (as.map Attribute.name ++ names) := by
  obtain ⟨u, d, w⟩ := σ
  cases u <;> simp [extend, Admits, OpenBlock.names]

theorem addAttribute_eq {a : Attribute} (h : σ.Admits (a.name :: names)) (p : Position) :
    σ.addAttribute p a = .ok (σ.extend [a] []) := by
  obtain ⟨u, d, w⟩ := σ
  cases u with
  | nil => simp [extend, addAttribute, ignored]
  | cons o u =>
    have hd : (o.names ++ a.name :: names).Nodup := h o rfl
    have hf : o.attributes.find? (·.name == a.name) = none := by
      refine List.find?_eq_none.2 fun b hb => ?_
      have hne : b.name ≠ a.name := (List.nodup_append.1 hd).2.2 _ (List.mem_map_of_mem hb) _ List.mem_cons_self
      simpa using hne
    simp [extend, addAttribute, hf]

end Progress

/-! ### The reader accepts what the grammar derives -/

section Completeness

variable {filename : String} {finish : Position} {ts rest : List PlacedToken} {items : List Item}

theorem definition_ok (finish : Position) (name : String) {value : List PlacedToken} {line : Nat}
    (hf : filename ≠ "") (hv : value ≠ []) (hn : NestedOver (· ≠ .newline) (value.map PlacedToken.token))
    (hs : EndsExpression rest) (hr : ∀ t ∈ value, t.token.Readable) (h1 : 1 ≤ line) (hl : line ≤ lastLine value) :
    ∃ v lines, Expression.resolve (value.map PlacedToken.token) = .ok v ∧
      Covers filename line (lastLine value) lines ∧
      definition filename finish name line (value ++ rest) = .ok (⟨name, v, lines⟩, rest) := by
  have hr' : ∀ t ∈ value.map PlacedToken.token, t.Readable := List.forall_mem_map.2 hr
  obtain ⟨v, hv'⟩ := Expression.resolve_ok hr'
  obtain ⟨lines, hlines, hc⟩ := range_ok hf h1 hl
  refine ⟨v, lines, hv', hc, ?_⟩
  have hlines' : range filename line (value.foldl (fun n t => max n t.endLine) 0) = .ok lines := hlines
  have he : value.isEmpty = false := by simpa using hv
  simp only [definition, expression_append hn hs, bind, Except.bind, he, hv', hlines', Except.mapError]
  rfl

theorem close_ok (o : OpenBlock) {last : Nat} (h : o.range.startLine ≤ last) :
    ∃ lines, Covers o.range.filename o.range.startLine last lines ∧
      o.close last = .ok ⟨o.kind, o.labels, lines, o.attributes, o.children⟩ := by
  obtain ⟨lines, hl, hc⟩ := range_ok o.range.filename_ne o.range.one_le_start h
  refine ⟨lines, hc, ?_⟩
  have hl' : (o.range.close? last).mapError Failure.badRange = .ok lines := hl
  simp only [OpenBlock.close, hl']
  rfl

/-- The reader runs through items and adds what they denote, if the names of their attributes are new. -/
theorem run_items (finish : Position) (hf : filename ≠ "") (h : Items ts items rest) (ho : InOrder ts)
    (hr : ∀ t ∈ ts, t.token.Readable) :
    ∃ as bs, Denotes filename items as bs ∧
      ∀ σ : Progress, σ.Admits (attributeNames items) →
        run filename finish σ ts = run filename finish (σ.extend as bs) rest := by
  induction h with
  | nil => exact ⟨[], [], .nil, fun σ _ => by rw [Progress.extend_nil]⟩
  | @newline t ts rest items ht h ih =>
    obtain ⟨as, bs, hd, hrun⟩ :=
      ih (ho.sublist (List.sublist_cons_self _ _)) fun u hu => hr u (List.mem_cons_of_mem _ hu)
    exact ⟨as, bs, hd, fun σ hσ => (run_of_step (.newline ht)).trans (hrun σ hσ)⟩
  | @assignment k e value ts rest name items hk he hv hn hs h ih =>
    have hsub : ts.Sublist (k :: e :: (value ++ ts)) :=
      (List.sublist_append_right _ _).trans
        ((List.sublist_cons_self _ _).trans (List.sublist_cons_self _ _))
    obtain ⟨as, bs, hd, hrun⟩ := ih (ho.sublist hsub) fun u hu => hr u (hsub.mem hu)
    -- the expression has a token, whose lines are not before that of the name
    obtain ⟨u, us, rfl⟩ := List.exists_cons_of_ne_nil hv
    have hku : k.start.line ≤ u.start.line := ho.start_le_start (by simp)
    have huu : u.start.line ≤ u.endLine := ho.start_le u (by simp)
    have hul : u.endLine ≤ lastLine (u :: us) := le_lastLine List.mem_cons_self
    obtain ⟨v, lines, hv', hc, hdef⟩ := definition_ok finish name hf hv hn hs
      (fun w hw => hr w (List.mem_cons_of_mem _ (List.mem_cons_of_mem _ (List.mem_append_left _ hw))))
      (ho.one_le k List.mem_cons_self) (by omega)
    refine ⟨⟨name, v, lines⟩ :: as, bs, .assignment hv' hc hd, fun σ hσ => ?_⟩
    have ha : σ.addAttribute k.start ⟨name, v, lines⟩ = .ok (σ.extend [⟨name, v, lines⟩] []) :=
      Progress.addAttribute_eq hσ k.start
    rw [run_of_step (.assignment hk he hdef ha), hrun _ (Progress.admits_extend.2 hσ), Progress.extend_extend]
    rfl
  | @block k o c ts body after rest kind names inner items hk hl ho' hb hc hd' h ihb ih =>
    have hbody : body <:+ k :: ts := ((List.suffix_cons _ _).trans hl.suffix).trans (List.suffix_cons _ _)
    have hafter : c :: after <:+ k :: ts := hb.suffix.trans hbody
    have hrest : after <:+ k :: ts := (List.suffix_cons _ _).trans hafter
    obtain ⟨as', bs', hd1, hrun1⟩ := ihb (ho.sublist hbody.sublist) fun u hu => hr u (hbody.subset hu)
    obtain ⟨as, bs, hd2, hrun2⟩ := ih (ho.sublist hrest.sublist) fun u hu => hr u (hrest.subset hu)
    obtain ⟨first, hfirst, hcov⟩ := range_ok hf (ho.one_le k List.mem_cons_self) (Nat.le_refl k.start.line)
    obtain ⟨hfn, hfs, -⟩ := hcov
    have hkc : first.startLine ≤ c.start.line := by
      have hcm : c ∈ ts := (hb.suffix.trans ((List.suffix_cons _ _).trans hl.suffix)).subset List.mem_cons_self
      rw [hfs]
      exact ho.start_le_start hcm
    obtain ⟨lines, hcov', hclose⟩ := close_ok ⟨kind, names, first, as', bs'⟩ hkc
    refine ⟨as, ⟨kind, names, lines, as', bs'⟩ :: bs, .block hd1 ?_ hd2, fun σ hσ => ?_⟩
    · rwa [hfn, hfs] at hcov'
    · have hadm : Progress.Admits { σ with unclosed := .opened kind names first :: σ.unclosed }
          (attributeNames inner) := by
        rintro o' ⟨⟩
        simpa [OpenBlock.names, OpenBlock.opened] using hd'
      have hext : Progress.extend { σ with unclosed := .opened kind names first :: σ.unclosed } as' bs' =
          { σ with unclosed := ⟨kind, names, first, as', bs'⟩ :: σ.unclosed } := rfl
      rw [run_of_step (.open hk hl ho' hfirst), hrun1 _ hadm, hext, run_of_step (.close hc rfl hclose),
        Progress.addBlock_eq, hrun2 _ (Progress.admits_extend.2 hσ), Progress.extend_extend]
      rfl

end Completeness

/-! ### What the reader accepts is derived by the grammar -/

/-- The tokens finish all open blocks, innermost first, whose attributes have the given names: items and a closing
brace for each, and items up to the end. -/
inductive Closings : List (List String) → List PlacedToken → Prop
  | nil {ts : List PlacedToken} {items : List Item} (h : Items ts items []) : Closings [] ts
  | cons {c : PlacedToken} {ts rest : List PlacedToken} {items : List Item} {names : List String}
      {outer : List (List String)} (hi : Items ts items (c :: rest)) (hc : c.token = .closing .curly)
      (hd : (names ++ attributeNames items).Nodup) (h : Closings outer rest) : Closings (names :: outer) ts

section Soundness

variable {filename : String} {finish : Position} {ts rest : List PlacedToken} {outer : List (List String)}

theorem Closings.newline {t : PlacedToken} (ht : t.token = .newline) (h : Closings outer ts) :
    Closings outer (t :: ts) := by
  cases h with
  | nil h => exact .nil (.newline ht h)
  | cons hi hc hd h => exact .cons (.newline ht hi) hc hd h

theorem Closings.block {k o : PlacedToken} {body : List PlacedToken} {kind : String} {names : List String}
    (hk : k.token = .identifier kind) (hl : Labels ts names (o :: body)) (ho : o.token = .opening .curly)
    (h : Closings ([] :: outer) body) : Closings outer (k :: ts) := by
  cases h with
  | cons hi hc hd h =>
    cases h with
    | nil h => exact .nil (.block hk hl ho hi hc hd h)
    | cons hi' hc' hd' h => exact .cons (.block hk hl ho hi hc hd hi') hc' hd' h

/-- The tokens of a definition are a nested run that ends where an expression may end. -/
theorem definition_inv {name : String} {line : Nat} {a : Attribute}
    (h : definition filename finish name line ts = .ok (a, rest)) :
    a.name = name ∧ ∃ value, ts = value ++ rest ∧ value ≠ [] ∧
      NestedOver (· ≠ .newline) (value.map PlacedToken.token) ∧ EndsExpression rest := by
  obtain ⟨⟨taken, rest'⟩, he, h⟩ := eq_ok_of_bind h
  simp only at h
  split at h
  · cases h
  · next hne =>
    obtain ⟨v, -, h⟩ := eq_ok_of_bind h
    obtain ⟨lines, -, h⟩ := eq_ok_of_bind h
    cases h
    obtain ⟨rfl, hc, hs⟩ := closesAll_of_expression he
    cases hc with
    | nil hn => exact ⟨rfl, taken, rfl, by simpa using hne, hn, hs⟩

/-- An attribute that can be added has a new name in the innermost open block. -/
theorem addAttribute_inv {σ σ' : Progress} {p : Position} {a : Attribute} (h : σ.addAttribute p a = .ok σ') :
    σ' = σ.extend [a] [] ∧ ∀ o ∈ σ.unclosed.head?, a.name ∉ o.names := by
  obtain ⟨u, d, w⟩ := σ
  cases u with
  | nil =>
    cases h
    exact ⟨by simp [Progress.extend, ignored], by simp⟩
  | cons o u =>
    simp only [Progress.addAttribute] at h
    split at h
    · cases h
    · next hf =>
      cases h
      refine ⟨by simp [Progress.extend], ?_⟩
      rintro o' ⟨⟩ hm
      obtain ⟨b, hb, hba⟩ := List.mem_map.1 hm
      have := List.find?_eq_none.1 hf b hb
      simp [hba] at this

theorem map_names_extend (σ : Progress) (bs : List Block) :
    (σ.extend [] bs).unclosed.map OpenBlock.names = σ.unclosed.map OpenBlock.names := by
  obtain ⟨u, d, w⟩ := σ
  cases u <;> simp [Progress.extend, OpenBlock.names]

theorem nodup_extend {σ : Progress} {a : Attribute} (hσ : ∀ ns ∈ σ.unclosed.map OpenBlock.names, ns.Nodup)
    (ha : ∀ o ∈ σ.unclosed.head?, a.name ∉ o.names) :
    ∀ ns ∈ (σ.extend [a] []).unclosed.map OpenBlock.names, ns.Nodup := by
  obtain ⟨u, d, w⟩ := σ
  cases u with
  | nil => simp [Progress.extend]
  | cons o u =>
    obtain ⟨ho, hu⟩ := List.forall_mem_cons.1 hσ
    refine List.forall_mem_cons.2 ⟨?_, hu⟩
    simp only [OpenBlock.names, List.map_append, List.map_cons, List.map_nil]
    exact List.nodup_append.2 ⟨ho, by simp, by simpa [OpenBlock.names] using ha o rfl⟩

theorem Closings.assignment {σ : Progress} {k e : PlacedToken} {value : List PlacedToken} {a : Attribute}
    (hk : k.token = .identifier a.name) (he : e.token = .equals) (hv : value ≠ [])
    (hn : NestedOver (· ≠ .newline) (value.map PlacedToken.token)) (hs : EndsExpression rest)
    (h : Closings ((σ.extend [a] []).unclosed.map OpenBlock.names) rest) :
    Closings (σ.unclosed.map OpenBlock.names) (k :: e :: (value ++ rest)) := by
  obtain ⟨u, d, w⟩ := σ
  cases u with
  | nil =>
    cases h with
    | nil hi => exact .nil (.assignment hk he hv hn hs hi)
  | cons o u =>
    cases h with
    | cons hi hc hd h =>
      refine .cons (.assignment hk he hv hn hs hi) hc ?_ h
      simpa [attributeNames, OpenBlock.names] using hd

/-- From any progress whose open blocks have attributes of distinct names, what is accepted finishes them. -/
theorem closings_of_run {σ : Progress} {bs : List Block}
    (hσ : ∀ ns ∈ σ.unclosed.map OpenBlock.names, ns.Nodup)
    (h : (run filename finish σ ts).outcome = .ok bs) : Closings (σ.unclosed.map OpenBlock.names) ts := by
  fun_induction run filename finish σ ts with
  | case1 σ =>
    simp only [Progress.finish] at h
    split at h
    · next hu =>
      rw [hu]
      exact .nil .nil
    · cases h
  | case2 => cases h
  | case3 σ t ts σ' rest hstep ih =>
    cases step_inv hstep with
    | newline ht => exact (ih hσ h).newline ht
    | close ht hu hb =>
      rw [hu, List.map_cons] at hσ ⊢
      obtain ⟨ho, hσ⟩ := List.forall_mem_cons.1 hσ
      rw [Progress.addBlock_eq] at ih h
      rw [map_names_extend] at ih
      exact .cons .nil ht (by simpa [attributeNames] using ho) (ih hσ h)
    | assignment ht he hd ha =>
      obtain ⟨rfl, value, rfl, hv, hn, hs⟩ := definition_inv hd
      obtain ⟨rfl, hnew⟩ := addAttribute_inv ha
      exact (ih (nodup_extend hσ hnew) h).assignment ht he hv hn hs
    | «open» ht hl ho hr => exact .block ht hl ho (ih (List.forall_mem_cons.2 ⟨List.nodup_nil, hσ⟩) h)

end Soundness

/-! ### Whole files -/

section Files

variable {filename : String} {x : Lexed}

theorem items_of_run {bs : List Block} (h : (run filename x.finish .start x.tokens).outcome = .ok bs) :
    ∃ items, Items x.tokens items [] := by
  cases closings_of_run (by simp [Progress.start]) h with
  | nil h => exact ⟨_, h⟩

/-- What the grammar derives is read as what it denotes. -/
theorem run_of_items {source : String} {items : List Item} (hx : lex source = .ok x) (hf : filename ≠ "")
    (hr : ∀ t ∈ x.tokens, t.token.Readable) (hi : Items x.tokens items []) :
    ∃ as bs, Denotes filename items as bs ∧
      run filename x.finish .start x.tokens = ⟨as.map ignored, .ok bs⟩ := by
  obtain ⟨as, bs, hd, hrun⟩ := run_items x.finish hf hi (inOrder_of_lex hx) hr
  refine ⟨as, bs, hd, ?_⟩
  rw [hrun .start (by rintro o ⟨⟩), run]
  simp [Progress.extend, Progress.start, Progress.finish]

/-- A file whose integer literals can be read is accepted if and only if the grammar derives its tokens, and its
blocks are those of the derivation; the attributes outside of blocks are dropped with a warning. -/
theorem run_iff_items {source : String} (hx : lex source = .ok x) (hf : filename ≠ "")
    (hr : ∀ t ∈ x.tokens, t.token.Readable) :
    ((∃ bs, (run filename x.finish .start x.tokens).outcome = .ok bs) ↔ ∃ items, Items x.tokens items []) ∧
      ∀ items, Items x.tokens items [] → ∃ as bs, Denotes filename items as bs ∧
        run filename x.finish .start x.tokens = ⟨as.map ignored, .ok bs⟩ := by
  refine ⟨⟨fun ⟨bs, h⟩ => items_of_run h, fun ⟨items, hi⟩ => ?_⟩, fun items => run_of_items hx hf hr⟩
  obtain ⟨as, bs, -, hrun⟩ := run_of_items hx hf hr hi
  exact ⟨bs, by rw [hrun]⟩

/-- A file with an attribute outside of blocks, and in a block a list over two lines. -/
theorem run_iff_items_nested :
    ∃ x : Lexed, lex "t = 1\nb \"l\" \x7b\n  x = [-1,\n\"v\"]\n  c \x7b\x7d\n\x7d" = .ok x ∧
      (∃ items, Items x.tokens items []) ∧ ∃ bs, (run "a.tf" x.finish .start x.tokens).outcome = .ok bs := by
  have h : lex "t = 1\nb \"l\" \x7b\n  x = [-1,\n\"v\"]\n  c \x7b\x7d\n\x7d" =
      .ok ⟨[⟨.identifier "t", ⟨1, 1⟩, 1⟩, ⟨.equals, ⟨1, 3⟩, 1⟩, ⟨.number "1", ⟨1, 5⟩, 1⟩, ⟨.newline, ⟨1, 6⟩, 1⟩,
        ⟨.identifier "b", ⟨2, 1⟩, 2⟩, ⟨.string "l" false, ⟨2, 3⟩, 2⟩, ⟨.opening .curly, ⟨2, 7⟩, 2⟩,
        ⟨.newline, ⟨2, 8⟩, 2⟩, ⟨.identifier "x", ⟨3, 3⟩, 3⟩, ⟨.equals, ⟨3, 5⟩, 3⟩, ⟨.opening .square, ⟨3, 7⟩, 3⟩,
        ⟨.operator "-", ⟨3, 8⟩, 3⟩, ⟨.number "1", ⟨3, 9⟩, 3⟩, ⟨.comma, ⟨3, 10⟩, 3⟩, ⟨.newline, ⟨3, 11⟩, 3⟩,
        ⟨.string "v" false, ⟨4, 1⟩, 4⟩, ⟨.closing .square, ⟨4, 4⟩, 4⟩, ⟨.newline, ⟨4, 5⟩, 4⟩,
        ⟨.identifier "c", ⟨5, 3⟩, 5⟩, ⟨.opening .curly, ⟨5, 5⟩, 5⟩, ⟨.closing .curly, ⟨5, 6⟩, 5⟩,
        ⟨.newline, ⟨5, 7⟩, 5⟩, ⟨.closing .curly, ⟨6, 1⟩, 6⟩], [], ⟨6, 2⟩⟩ := by
    decide +kernel
  have hn : "1".length ≤ Decimal.digitLimit := by decide
  obtain ⟨hiff, -⟩ := run_iff_items h (show "a.tf" ≠ "" by decide) (by simp [Token.Readable, hn])
  have hok : ∀ o : Except Failure (List Block), o.toBool = true → ∃ bs, o = .ok bs := by
    rintro (e | bs) ⟨⟩
    exact ⟨bs, rfl⟩
  exact ⟨_, h, (and_iff_right_of_imp hiff.1).2 (hok _ (by decide +kernel))⟩

end Files

end InfraAudit.Hcl.Document
