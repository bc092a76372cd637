import InfraAudit.CommandLine.Run
import InfraAudit.Proofs.Hcl.Inversion
import Mathlib.Data.List.Forall2

/-!
# InfraAudit.Proofs.CommandLine.Editions — what the words of a command line set

* `Options.HasValues`, `Options.Complete`: no option lacks a value that is needed.
* `set_complete`, `follow_complete`, `parse_complete`: the current edition of the reader leaves no option without its
  value, setting by setting and word by word.
* `Word.Agree`: what the two editions make of one word has the same effect, if it has any.
* `parse_early_iff`, `run_early`: so the words set the same options for both editions, and a run is the same, unless a
  word ends in the separator.
-/

namespace InfraAudit.CommandLine

open InfraAudit.Hcl InfraAudit.Report

/-- The options whose value is needed have one. -/
def Options.HasValues (o : Options) : Prop :=
  none ∉ o.exclude ∧ o.jobs = true

/-- No option lacks a value that is needed, and the report has a form. -/
structure Options.Complete (o : Options) : Prop where
  values : o.HasValues
  format : o.format ≠ none

/-- An option that takes a value has one. -/
def Setting.Valued (x : Setting) : Prop :=
  x.switch.takesValue = true → x.value ≠ none

section Words

variable {e : Edition} {s : Switch} {c : Cluster} {first : Char} {rest : List Char} {value : String}

/-! ### One word -/

/-- All that the word of an option of one letter can say. -/
theorem joined_inv (h : Cluster.joined e s first rest = .ok c) :
    (s.takesValue = true ∧ c = ⟨[.of e s (String.ofList (first :: rest))], none⟩) ∨
      (s.takesValue = false ∧ (c = .bare s ∨ ∃ t c', c = c'.behind s ∧
        (c' = .bare t ∨ (∃ value, Cluster.marked e t value = .ok c') ∨
          ∃ d more, rest = d :: more ∧ Cluster.joined e t d more = .ok c'))) := by
  unfold Cluster.joined at h
  cases hs : s.takesValue with
  | true => exact .inl ⟨rfl, by simpa [hs, eq_comm] using h⟩
  | false =>
    refine .inr ⟨rfl, ?_⟩
    simp only [hs, Bool.false_eq_true, if_false] at h
    cases ht : Switch.ofLetter? first with
    | none =>
      simp only [ht] at h
      split at h
      · exact .inl (Except.ok.inj h).symm
      · cases h
    | some t =>
      simp only [ht] at h
      right
      cases rest with
      | nil => exact ⟨t, .bare t, (Except.ok.inj h).symm, .inl rfl⟩
      | cons d more =>
        simp only at h
        split at h
        · obtain ⟨c', hc', rfl⟩ := Document.eq_ok_of_map h
          exact ⟨t, c', rfl, .inr (.inl ⟨_, hc'⟩)⟩
        · obtain ⟨c', hc', rfl⟩ := Document.eq_ok_of_map h
          exact ⟨t, c', rfl, .inr (.inr ⟨d, more, rfl, hc'⟩)⟩

theorem valued_of_flag (hs : s.takesValue = false) (v : Option String) : (Setting.mk s v).Valued := by
  intro htakes
  rw [hs] at htakes
  cases htakes

theorem valued_of (s : Switch) (value : String) : (Setting.of .current s value).Valued := by
  intro _
  simp [Setting.of]

theorem valued_bare (s : Switch) : ∀ x ∈ (Cluster.bare s).settings, x.Valued := by
  cases hs : s.takesValue with
  | true => simp [Cluster.bare, hs]
  | false => simpa [Cluster.bare, hs] using valued_of_flag hs none

theorem valued_marked (h : Cluster.marked .current s value = .ok c) : ∀ x ∈ c.settings, x.Valued := by
  rw [Cluster.marked] at h
  split at h
  · obtain rfl := Except.ok.inj h
    exact List.forall_mem_singleton.2 (valued_of s value)
  · cases h

/-- Joined letters have their values if those behind the first one have. -/
theorem valued_joined_of (h : Cluster.joined .current s first rest = .ok c)
    (hmore : ∀ t d more c', rest = d :: more → Cluster.joined .current t d more = .ok c' →
      ∀ x ∈ c'.settings, x.Valued) : ∀ x ∈ c.settings, x.Valued := by
  rcases joined_inv h with ⟨-, rfl⟩ | ⟨hs, rfl | ⟨t, c', rfl, hc'⟩⟩
  · exact List.forall_mem_singleton.2 (valued_of s _)
  · exact valued_bare s
  · refine List.forall_mem_cons.2 ⟨valued_of_flag hs none, ?_⟩
    rcases hc' with rfl | ⟨v, hv⟩ | ⟨d, more, hr, hd⟩
    · exact valued_bare t
    · exact valued_marked hv
    · exact hmore t d more c' hr hd

theorem valued_joined (h : Cluster.joined .current s first rest = .ok c) : ∀ x ∈ c.settings, x.Valued := by
  induction rest generalizing s first c with
  | nil => exact valued_joined_of h fun _ _ _ _ hr => nomatch hr
  | cons d more ih =>
    refine valued_joined_of h fun t d' more' c' hr hd => ?_
    obtain ⟨rfl, rfl⟩ := List.cons.inj hr
    exact ih hd

theorem valued_cluster {a : Attached} (h : Cluster.of .current s a = .ok c) : ∀ x ∈ c.settings, x.Valued := by
  cases a with
  | absent =>
    obtain rfl := Except.ok.inj h
    exact valued_bare s
  | marked value => exact valued_marked h
  | joined first rest => exact valued_joined h

end Words

/-! ### The options -/

section Complete

variable {o o' : Options} {r r' : Reading} {words : List String}

theorem complete_initial : Options.initial.Complete :=
  ⟨⟨List.not_mem_nil, rfl⟩, by simp [Options.initial]⟩

theorem set_complete {x : Setting} (ho : o.Complete) (hx : x.Valued) (h : o.set x = .ok o') : o'.Complete := by
  obtain ⟨⟨hexclude, hjobs⟩, hformat⟩ := ho
  obtain ⟨s, v⟩ := x
  cases s with
  | help | version => cases h
  | plain | listChecks | verbose | debug | output | config =>
    obtain rfl := Except.ok.inj h
    exact ⟨⟨hexclude, hjobs⟩, hformat⟩
  | format =>
    cases v with
    | none => exact absurd rfl (hx rfl)
    | some v =>
      obtain ⟨f, -, rfl⟩ := Document.eq_ok_of_map h
      exact ⟨⟨hexclude, hjobs⟩, Option.some_ne_none f⟩
  | minimum =>
    cases v with
    | none => exact absurd rfl (hx rfl)
    | some v =>
      obtain ⟨m, -, rfl⟩ := Document.eq_ok_of_map h
      exact ⟨⟨hexclude, hjobs⟩, hformat⟩
  | jobs =>
    cases v with
    | none => exact absurd rfl (hx rfl)
    | some v =>
      simp only [Options.set] at h
      split at h
      · obtain rfl := Except.ok.inj h
        exact ⟨⟨hexclude, rfl⟩, hformat⟩
      · cases h
  | exclude =>
    obtain rfl := Except.ok.inj h
    refine ⟨⟨fun hmem => ?_, hjobs⟩, hformat⟩
    rcases List.mem_append.1 hmem with hmem | hmem
    · exact hexclude hmem
    · exact hx rfl (List.mem_singleton.1 hmem).symm

theorem settings_complete {xs : List Setting} (ho : o.Complete) (hx : ∀ x ∈ xs, x.Valued)
    (h : xs.foldlM Options.set o = .ok o') : o'.Complete := by
  induction xs generalizing o with
  | nil =>
    obtain rfl := Except.ok.inj h
    exact ho
  | cons x xs ih =>
    obtain ⟨hhead, htail⟩ := List.forall_mem_cons.1 hx
    rw [List.foldlM_cons] at h
    obtain ⟨o₁, h₁, h⟩ := Document.eq_ok_of_bind h
    exact ih (set_complete ho hhead h₁) htail h

theorem reading_set_complete {xs : List Setting} (hr : r.options.Complete) (hx : ∀ x ∈ xs, x.Valued)
    (h : r.set xs = .ok r') : r'.options.Complete := by
  obtain ⟨o, ho, rfl⟩ := Document.eq_ok_of_map h
  exact settings_complete hr hx ho

theorem operand_complete (hr : r.options.Complete) (w : String) : (r.operand w).options.Complete := by
  unfold Reading.operand
  split
  · exact ⟨hr.values, hr.format⟩
  · exact hr

theorem operands_complete (hr : r.options.Complete) (words : List String) :
    (words.foldl Reading.operand r).options.Complete := by
  induction words generalizing r with
  | nil => exact hr
  | cons w words ih => exact ih (operand_complete hr w)

theorem behindSeparator_complete (hr : r.options.Complete) (direct : Bool) (words : List String) :
    (r.behindSeparator direct words).options.Complete := by
  unfold Reading.behindSeparator
  split
  · exact hr
  · exact operands_complete hr words

/-- Word by word, no option is left without its value. -/
theorem follow_complete {behind : Option (List String)} {direct : Bool} {ws : List Word} (hr : r.options.Complete)
    (h : Reading.follow .current behind direct r ws = .ok r') : r'.options.Complete := by
  fun_induction Reading.follow .current behind direct r ws with
  | case1 direct r =>
    obtain rfl := Except.ok.inj h
    cases behind with
    | none => exact hr
    | some words => exact behindSeparator_complete hr direct words
  | case2 direct r w rest ih => exact ih (operand_complete hr w) h
  | case3 direct r w rest ih => exact ih hr h
  | case4 direct r s a rest m hc => cases h
  | case5 direct r s a rest settings hc ih =>
    obtain ⟨r₁, h₁, h⟩ := Document.eq_ok_of_bind h
    exact ih r₁ (reading_set_complete hr (valued_cluster hc) h₁) h
  | case6 direct r s a settings t hc w rest ih =>
    -- the word behind gives the value of the last option
    have hvalued : ∀ x ∈ settings ++ [Setting.of .current t w], x.Valued :=
      List.forall_mem_append.2 ⟨valued_cluster hc, List.forall_mem_singleton.2 (valued_of t w)⟩
    obtain ⟨r₁, h₁, h⟩ := Document.eq_ok_of_bind h
    exact ih r₁ (reading_set_complete hr hvalued h₁) h
  | case7 direct r s a rest settings t hc hnone => cases h

/-- The words set options if each of them can be told apart, and all can be followed with none left over. -/
theorem parse_eq_ok_iff {e : Edition} :
    Options.parse e words = .ok o ↔ ∃ ws r, (cutSeparator words).1.mapM (readWord e) = .ok ws ∧
      Reading.follow e (cutSeparator words).2 false ⟨.initial, []⟩ ws = .ok r ∧ r.leftOver = [] ∧ r.options = o := by
  unfold Options.parse
  constructor
  · intro h
    obtain ⟨ws, hws, h⟩ := Document.eq_ok_of_bind h
    obtain ⟨r, hr, h⟩ := Document.eq_ok_of_bind h
    split at h
    · next hnone => exact ⟨ws, r, hws, hr, List.isEmpty_iff.1 hnone, Except.ok.inj h⟩
    · cases h
  · rintro ⟨ws, r, hws, hr, hnone, rfl⟩
    simp only [hws, hr, hnone, bind, Except.bind]
    rfl

theorem parse_complete (h : Options.parse .current words = .ok o) : o.Complete := by
  obtain ⟨ws, r, -, hr, -, rfl⟩ := parse_eq_ok_iff.1 h
  exact follow_complete complete_initial hr

end Complete

/-! ### Two editions -/

/-- Nothing is read behind the word of an option: it is refused, or it asks first for the help text or the version. -/
def Cluster.Ends (x : Except Misuse Cluster) : Prop :=
  ∀ c, x = .ok c → ∃ y ys, c.settings = y :: ys ∧ (y.switch = .help ∨ y.switch = .version)

/-- Readings of one word, by the early edition and the current one, that have the same effect if they have any. -/
inductive Word.Agree : Word → Word → Prop
  | operand {w : String} (hw : w ≠ separator) : Agree (.operand w) (.operand w)
  | unknown (w : String) : Agree (.unknown w) (.unknown w)
  | same {s : Switch} {a b : Attached} (h : Cluster.of .early s a = Cluster.of .current s b) :
      Agree (.switch s a) (.switch s b)
  | ends {s : Switch} {a b : Attached} (ha : Cluster.Ends (Cluster.of .early s a))
      (hb : Cluster.Ends (Cluster.of .current s b)) : Agree (.switch s a) (.switch s b)

section Editions

variable {e : Edition} {s : Switch} {w value : String} {r r' : Reading} {o : Options}

theorem setting_eq (s : Switch) (h : value ≠ separator) : Setting.of .early s value = Setting.of .current s value := by
  simp [Setting.of, h]

theorem marked_eq (s : Switch) (h : value ≠ separator) :
    Cluster.marked .early s value = Cluster.marked .current s value := by
  rw [Cluster.marked, Cluster.marked, setting_eq s h]

theorem ends_joined (hs : s = .help ∨ s = .version) (first : Char) (rest : List Char) :
    Cluster.Ends (Cluster.joined e s first rest) := by
  intro c hc
  have hflag : s.takesValue = false := by rcases hs with rfl | rfl <;> rfl
  rcases joined_inv hc with ⟨ht, -⟩ | ⟨-, rfl | ⟨-, c', rfl, -⟩⟩
  · rw [hflag] at ht
    cases ht
  · exact ⟨⟨s, none⟩, [], by simp [Cluster.bare, hflag], hs⟩
  · exact ⟨⟨s, none⟩, c'.settings, rfl, hs⟩

/-- The options of one letter that take no value end the reading. -/
theorem takesValue_or_ends {c : Char} (h : Switch.ofLetter? c = some s) :
    s.takesValue = true ∨ s = .help ∨ s = .version := by
  have hall : ∀ x ∈ Switch.spelled, x.1.length = 2 → x.2.takesValue = true ∨ x.2 = .help ∨ x.2 = .version := by
    decide
  obtain ⟨front, back, hspelled, -⟩ := List.lookup_eq_some_iff.1 h
  have hmem : (String.ofList ['-', c], s) ∈ Switch.spelled := by simp [hspelled]
  exact hall _ hmem String.length_ofList

theorem joined_eq {first : Char} {rest : List Char} (hs : s.takesValue = true)
    (h : String.ofList (first :: rest) ≠ separator) :
    Cluster.joined e s first rest = Cluster.marked .current s (String.ofList (first :: rest)) := by
  unfold Cluster.joined Cluster.marked
  cases e with
  | early => simp only [hs, if_true, setting_eq s h]
  | current => simp only [hs, if_true]

theorem ne_separator {value : List Char} (h : ¬ separator.toList <:+ value) : String.ofList value ≠ separator := by
  intro heq
  rw [← heq, String.toList_ofList] at h
  exact h List.suffix_rfl

/-- What is joined to a letter is one value for both editions, or it stands behind an option that ends the reading. -/
theorem agree_joined {c first : Char} {rest : List Char} {b : Attached} (hs : Switch.ofLetter? c = some s)
    (h : ¬ separator.toList <:+ first :: rest)
    (hb : b = .joined first rest ∨ b = .marked (String.ofList (first :: rest))) :
    Word.Agree (.switch s (.joined first rest)) (.switch s b) := by
  rcases takesValue_or_ends hs with ht | hflag
  · have hvalue (e : Edition) := joined_eq (e := e) ht (ne_separator h)
    refine .same ?_
    rcases hb with rfl | rfl
    · exact (hvalue .early).trans (hvalue .current).symm
    · exact hvalue .early
  · refine .ends (ends_joined hflag first rest) ?_
    rcases hb with rfl | rfl
    · exact ends_joined hflag first rest
    · intro c hc
      rcases hflag with rfl | rfl <;> cases hc

theorem agree_letter {c : Char} {rest : List Char} (hs : Switch.ofLetter? c = some s)
    (h : ¬ separator.toList <:+ rest) :
    Word.Agree (.switch s (.toLetter .early rest)) (.switch s (.toLetter .current rest)) := by
  cases rest with
  | nil => exact .same rfl
  | cons d more =>
    by_cases hd : d = '='
    · subst hd
      cases more with
      | nil => exact .same (marked_eq s (by decide))
      | cons d more => exact agree_joined hs (fun hd => h (hd.trans (List.suffix_cons _ _))) (.inr rfl)
    · have hletters (e : Edition) : Attached.toLetter e (d :: more) = .joined d more := by
        unfold Attached.toLetter
        split <;> simp_all
      rw [hletters, hletters]
      exact agree_joined hs h (.inl rfl)

theorem suffix_of_cutMark {v : List Char} (h : (Word.cutMark w).2 = some v) : v <:+ w.toList := by
  unfold Word.cutMark at h
  simp only at h
  split at h
  · next hdrop =>
    obtain rfl := Option.some.inj h
    exact (List.suffix_cons _ _).trans (hdrop ▸ List.dropWhile_suffix _)
  · cases h

theorem agree_name (s : Switch) (h : ¬ separator.toList <:+ w.toList) :
    Word.Agree (.switch s (Word.toName (Word.cutMark w).2)) (.switch s (Word.toName (Word.cutMark w).2)) := by
  cases hv : (Word.cutMark w).2 with
  | none => exact .same rfl
  | some v => exact .same (marked_eq s (ne_separator fun hs => h (hs.trans (suffix_of_cutMark hv))))

theorem candidates_agree (h : ¬ separator.toList <:+ w.toList) :
    List.Forall₂ (fun x y => x.1 = y.1 ∧ x.2.Agree y.2) (Word.candidates .early w) (Word.candidates .current w) := by
  unfold Word.candidates
  simp only
  cases Switch.ofSpelling? w with
  | some s => exact .cons ⟨rfl, .same rfl⟩ .nil
  | none =>
    simp only
    split
    · split
      · exact .cons ⟨rfl, agree_name _ h⟩ .nil
      · rw [List.forall₂_map_left_iff, List.forall₂_map_right_iff, List.forall₂_same]
        exact fun x _ => ⟨rfl, agree_name x.2 h⟩
    · next c rest _ hw =>
      cases hs : Switch.ofLetter? c with
      | none => exact .nil
      | some s =>
        have hrest : rest <:+ w.toList := hw ▸ (List.suffix_cons _ _).trans (List.suffix_cons _ _)
        exact .cons ⟨rfl, agree_letter hs fun hsep => h (hsep.trans hrest)⟩ .nil
    · exact .nil

/-- The editions tell a word apart alike if it does not end in the separator. -/
theorem readWord_agree (h : ¬ separator.toList <:+ w.toList) :
    (∃ x y, readWord .early w = .ok x ∧ readWord .current w = .ok y ∧ x.Agree y) ∨
      ∃ m, readWord .early w = .error m ∧ readWord .current w = .error m := by
  have hw : w ≠ separator := fun heq => h (heq ▸ List.suffix_rfl)
  have hcandidates := candidates_agree h
  unfold readWord Word.read
  by_cases hoperand : w.toList.head? ≠ some '-' ∨ w = "-"
  · rw [if_pos hoperand, if_pos hoperand]
    exact .inl ⟨_, _, rfl, rfl, .operand hw⟩
  · rw [if_neg hoperand, if_neg hoperand]
    generalize Word.candidates .early w = xs, Word.candidates .current w = ys at hcandidates ⊢
    have hnames : xs.map Prod.fst = ys.map Prod.fst := by
      rw [← List.forall₂_eq_eq_eq, List.forall₂_map_left_iff, List.forall₂_map_right_iff]
      exact hcandidates.imp fun _ _ h => h.1
    cases hcandidates with
    | nil =>
      refine .inl ⟨_, _, rfl, rfl, ?_⟩
      unfold Word.unnamed
      split
      · exact .operand hw
      · exact .unknown w
    | cons hx hrest =>
      cases hrest with
      | nil => exact .inl ⟨_, _, rfl, rfl, hx.2⟩
      | cons hy hrest =>
        refine .inr ⟨_, rfl, ?_⟩
        show Except.error (Stop.misuse (.ambiguous w _)) = _
        rw [hnames]

theorem mapM_readWord_agree {words : List String} (h : ∀ w ∈ words, ¬ separator.toList <:+ w.toList) :
    (∃ xs ys, words.mapM (readWord .early) = .ok xs ∧ words.mapM (readWord .current) = .ok ys ∧
      List.Forall₂ Word.Agree xs ys) ∨
      ∃ m, words.mapM (readWord .early) = .error m ∧ words.mapM (readWord .current) = .error m := by
  induction words with
  | nil => exact .inl ⟨[], [], rfl, rfl, .nil⟩
  | cons w words ih =>
    obtain ⟨hhead, htail⟩ := List.forall_mem_cons.1 h
    rw [List.mapM_cons, List.mapM_cons]
    rcases readWord_agree hhead with ⟨x, y, hx, hy, hxy⟩ | ⟨m, hx, hy⟩
    · rcases ih htail with ⟨xs, ys, hxs, hys, hagree⟩ | ⟨m, hxs, hys⟩
      · refine .inl ⟨x :: xs, y :: ys, ?_, ?_, .cons hxy hagree⟩
        · rw [hx, hxs]
          rfl
        · rw [hy, hys]
          rfl
      · refine .inr ⟨m, ?_, ?_⟩
        · rw [hx, hxs]
          rfl
        · rw [hy, hys]
          rfl
    · refine .inr ⟨m, ?_, ?_⟩
      · rw [hx]
        rfl
      · rw [hy]
        rfl

theorem not_set_of_ends {y : Setting} (hy : y.switch = .help ∨ y.switch = .version) (ys : List Setting) :
    r.set (y :: ys) ≠ .ok r' := by
  intro h
  obtain ⟨o, ho, -⟩ := Document.eq_ok_of_map h
  rw [List.foldlM_cons] at ho
  obtain ⟨o₁, h₁, -⟩ := Document.eq_ok_of_bind ho
  obtain ⟨s, v⟩ := y
  rcases hy with rfl | rfl <;> cases h₁

theorem not_follow_of_ends {behind : Option (List String)} {direct : Bool} {a : Attached} {ws : List Word}
    (h : Cluster.Ends (Cluster.of e s a)) : Reading.follow e behind direct r (.switch s a :: ws) ≠ .ok r' := by
  intro hr
  cases hc : Cluster.of e s a with
  | error m =>
    simp only [Reading.follow, hc] at hr
    cases hr
  | ok c =>
    obtain ⟨settings, awaiting⟩ := c
    obtain ⟨y, ys, hsettings, hy⟩ := h _ hc
    simp only at hsettings
    subst hsettings
    cases awaiting with
    | none =>
      simp only [Reading.follow, hc] at hr
      obtain ⟨r₁, h₁, -⟩ := Document.eq_ok_of_bind hr
      exact not_set_of_ends hy ys h₁
    | some t =>
      simp only [Reading.follow, hc] at hr
      split at hr
      · obtain ⟨r₁, h₁, -⟩ := Document.eq_ok_of_bind hr
        exact not_set_of_ends hy _ h₁
      · cases hr

theorem follow_agree {behind : Option (List String)} {direct : Bool} {xs ys : List Word}
    (h : List.Forall₂ Word.Agree xs ys) :
    Reading.follow .early behind direct r xs = .ok r' ↔ Reading.follow .current behind direct r ys = .ok r' := by
  induction direct, r, xs using Reading.follow.induct .early generalizing ys with
  | case1 direct r =>
    cases h
    rfl
  | case2 direct r w rest ih =>
    cases h with
    | cons hx h =>
      cases hx
      exact ih h
  | case3 direct r w rest ih =>
    cases h with
    | cons hx h =>
      cases hx
      exact ih h
  | case4 direct r s a rest m hc =>
    cases h with
    | cons hx h =>
      cases hx with
      | same heq => simp only [Reading.follow, ← heq, hc]
      | ends ha hb => exact iff_of_false (not_follow_of_ends ha) (not_follow_of_ends hb)
  | case5 direct r s a rest settings hc ih =>
    cases h with
    | cons hx h =>
      cases hx with
      | same heq =>
        simp only [Reading.follow, ← heq, hc]
        cases r.set settings with
        | error m => rfl
        | ok r₁ => exact ih r₁ h
      | ends ha hb => exact iff_of_false (not_follow_of_ends ha) (not_follow_of_ends hb)
  | case6 direct r s a settings t hc w rest ih =>
    cases h with
    | cons hx h =>
      cases hx with
      | same heq =>
        cases h with
        | cons hy h =>
          cases hy with
          | operand hw =>
            simp only [Reading.follow, ← heq, hc, setting_eq t hw]
            cases r.set (settings ++ [.of .current t w]) with
            | error m => rfl
            | ok r₁ => exact ih r₁ h
      | ends ha hb => exact iff_of_false (not_follow_of_ends ha) (not_follow_of_ends hb)
  | case7 direct r s a rest settings t hc hnone =>
    cases h with
    | cons hx h =>
      cases hx with
      | same heq =>
        cases h with
        | nil => simp only [Reading.follow, ← heq, hc]
        | cons hy h =>
          cases hy with
          | operand hw => exact absurd rfl (hnone _ _)
          | unknown w => simp only [Reading.follow, ← heq, hc]
          | same hd => simp only [Reading.follow, ← heq, hc]
          | ends _ _ => simp only [Reading.follow, ← heq, hc]
      | ends ha hb => exact iff_of_false (not_follow_of_ends ha) (not_follow_of_ends hb)

/-- If no word before the separator ends in it, then both editions of the reader accept the same command lines, and the
words set the same options. -/
theorem parse_early_iff {words : List String} (h : ∀ w ∈ (cutSeparator words).1, ¬ separator.toList <:+ w.toList) :
    Options.parse .early words = .ok o ↔ Options.parse .current words = .ok o := by
  rw [parse_eq_ok_iff, parse_eq_ok_iff]
  rcases mapM_readWord_agree h with ⟨xs, ys, hx, hy, hagree⟩ | ⟨m, hx, hy⟩
  · constructor
    · rintro ⟨ws, r, hws, hr, hdone⟩
      obtain rfl := Except.ok.inj (hx.symm.trans hws)
      exact ⟨ys, r, hy, (follow_agree hagree).1 hr, hdone⟩
    · rintro ⟨ws, r, hws, hr, hdone⟩
      obtain rfl := Except.ok.inj (hy.symm.trans hws)
      exact ⟨xs, r, hx, (follow_agree hagree).2 hr, hdone⟩
  · simp [hx, hy]

/-- So a run is the same for both editions, unless a word ends in the separator. -/
theorem run_early {words : List String} (around : Surroundings)
    (h : ∀ w ∈ (cutSeparator words).1, ¬ separator.toList <:+ w.toList)
    (hparse : Options.parse .current words = .ok o) :
    run around words .early = run around words .current := by
  rw [run, run, (parse_early_iff h).2 hparse, hparse]

-- where a word ends in the separator, the early edition leaves the number of jobs out, and the current one refuses it
example : (Options.parse .early ["--jobs=--"]).toOption.map (·.jobs) = some false ∧
    (Options.parse .current ["--jobs=--"]).toOption = none := by
  decide +kernel

end Editions

end InfraAudit.CommandLine
