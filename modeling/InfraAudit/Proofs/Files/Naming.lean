import InfraAudit.Files.Workspace
import Mathlib.Data.List.Basic
import Mathlib.Data.List.Nodup

/-!
# InfraAudit.Proofs.Files.Naming — different files have different names

* `IsPart`, `Path.Normal`: the names that a path keeps as its parts, and paths of such parts.
* `Path.parse_text`: such a path is read back from its text, so different paths have different texts.
* `WellNamed`: a tree whose directories have entries with different names, each of which is a part of a path.
* `text_sources_nodup`: the configuration files below a directory of such a tree have different names.
-/

namespace InfraAudit.Files

/-! ### Paths and their texts -/

/-- Whether a path keeps the name as one of its parts: it is not empty, no single dot, and has no slash. -/
def IsPart (name : String) : Prop :=
  name ≠ "" ∧ name ≠ "." ∧ '/' ∉ name.toList

instance : DecidablePred IsPart :=
  fun name => inferInstanceAs (Decidable (name ≠ "" ∧ name ≠ "." ∧ '/' ∉ name.toList))

/-- A path all of whose parts are kept. -/
def Path.Normal (p : Path) : Prop :=
  ∀ x ∈ p.parts, IsPart x

section Segments

theorem not_mem_of_mem_splitOn {α : Type} [BEq α] [LawfulBEq α] {a : α} {s l : List α} (h : l ∈ s.splitOn a) :
    a ∉ l := by
  induction s generalizing l with
  | nil =>
    obtain rfl := List.mem_singleton.1 h
    exact List.not_mem_nil
  | cons x s ih =>
    rw [List.splitOn_cons_eq_if_modifyHead] at h
    split at h
    · rcases List.mem_cons.1 h with rfl | h
      · exact List.not_mem_nil
      · exact ih h
    · next hx =>
      obtain ⟨first, rest, hs⟩ := List.exists_cons_of_ne_nil (List.splitOn_ne_nil a s)
      rw [hs, List.modifyHead_cons, List.mem_cons] at h
      rcases h with rfl | h
      · have hfirst : a ∉ first := ih (hs ▸ List.mem_cons_self)
        rw [List.mem_cons, not_or]
        exact ⟨fun he => hx (by simp [he]), hfirst⟩
      · exact ih (hs ▸ List.mem_cons_of_mem _ h)

theorem segments_slash (s : String) : segments ("/" ++ s) = "" :: segments s := by
  have hs : ("/" ++ s).toList = [] ++ '/' :: s.toList := String.toList_append
  rw [segments, hs, List.splitOn_append_cons_self]
  rfl

theorem segments_intercalate {parts : List String} (h : ∀ x ∈ parts, IsPart x) (hne : parts ≠ []) :
    segments ("/".intercalate parts) = parts := by
  have hslash : ∀ l ∈ parts.map String.toList, '/' ∉ l := by
    intro l hl
    obtain ⟨x, hx, rfl⟩ := List.mem_map.1 hl
    exact (h x hx).2.2
  have hs : ("/".intercalate parts).toList = ['/'].intercalate (parts.map String.toList) := String.toList_intercalate
  rw [segments, hs, List.splitOn_intercalate '/' hslash (by simpa using hne), List.map_map]
  exact List.map_id'' (fun x => String.ofList_toList) parts

theorem filter_parts {parts : List String} (h : ∀ x ∈ parts, IsPart x) :
    (parts.filter fun p => p != "" && p != ".") = parts :=
  List.filter_eq_self.2 fun x hx => by simp [(h x hx).1, (h x hx).2.1]

end Segments

namespace Path

variable {p q : Path}

theorem normal_parse (s : String) : (parse s).Normal := by
  intro x hx
  obtain ⟨hx, hne⟩ := List.mem_filter.1 hx
  obtain ⟨l, hl, rfl⟩ := List.mem_map.1 hx
  simp only [Bool.and_eq_true, bne_iff_ne] at hne
  refine ⟨hne.1, hne.2, ?_⟩
  rw [String.toList_ofList]
  exact not_mem_of_mem_splitOn hl

theorem Normal.child (h : p.Normal) {name : String} (hn : IsPart name) : (p.child name).Normal := by
  intro x hx
  rcases List.mem_append.1 hx with hx | hx
  · exact h x hx
  · obtain rfl := List.mem_singleton.1 hx
    exact hn

/-- Behind the slashes of the anchor, the text of parts starts with no slash. -/
theorem exists_text_cons {x : String} (xs : List String) (hx : IsPart x) :
    ∃ c s, ("/".intercalate (x :: xs)).toList = c :: s ∧ (c == '/') = false := by
  obtain ⟨c, cs, hc⟩ := List.exists_cons_of_ne_nil fun he => hx.1 (String.toList_eq_nil_iff.1 he)
  have hne : (c == '/') = false := by
    have hmem : '/' ∉ c :: cs := hc ▸ hx.2.2
    exact beq_eq_false_iff_ne.2 fun he => hmem (he ▸ List.mem_cons_self)
  rw [String.toList_intercalate, List.map_cons, hc]
  cases xs with
  | nil => exact ⟨c, cs, by simp, hne⟩
  | cons y ys => exact ⟨c, _, by rw [List.map_cons, List.intercalate_cons_cons]; rfl, hne⟩

/-- A path whose parts are all kept is read back from its text. -/
theorem parse_text (h : p.Normal) : parse p.text = p := by
  obtain ⟨anchor, parts⟩ := p
  cases parts with
  | nil => cases anchor <;> decide
  | cons x xs =>
    obtain ⟨c, s, htext, hc⟩ := exists_text_cons xs (h x List.mem_cons_self)
    have hsegments := segments_intercalate h (List.cons_ne_nil x xs)
    have hfilter := filter_parts h
    have hdot : ¬((⟨anchor, x :: xs⟩ : Path).anchor = .here ∧ (⟨anchor, x :: xs⟩ : Path).parts = []) :=
      fun he => List.cons_ne_nil x xs he.2
    rw [text, if_neg hdot, parse]
    cases anchor with
    | here =>
      have ha : anchorOf (Anchor.here.text ++ "/".intercalate (x :: xs)) = .here := by
        simp [anchorOf, Anchor.text, htext, hc]
      rw [ha, Anchor.text, String.empty_append, hsegments, hfilter]
    | slash =>
      have ha : anchorOf (Anchor.slash.text ++ "/".intercalate (x :: xs)) = .slash := by
        simp [anchorOf, Anchor.text, htext, hc]
      rw [ha, Anchor.text, segments_slash, List.filter_cons, hsegments, hfilter]
      rfl
    | twoSlashes =>
      have ha : anchorOf (Anchor.twoSlashes.text ++ "/".intercalate (x :: xs)) = .twoSlashes := by
        simp [anchorOf, Anchor.text, htext, hc]
      have htwo : "//" ++ "/".intercalate (x :: xs) = "/" ++ ("/" ++ "/".intercalate (x :: xs)) := by
        rw [← String.append_assoc]
        rfl
      rw [ha, Anchor.text, htwo, segments_slash, segments_slash, List.filter_cons, List.filter_cons, hsegments,
        hfilter]
      rfl

/-- Different paths have different texts. -/
theorem text_inj (hp : p.Normal) (hq : q.Normal) (h : p.text = q.text) : p = q := by
  rw [← parse_text hp, h, parse_text hq]

end Path

/-! ### Trees of files -/

/-- Entries of a directory, and of the directories in it, with different names that are parts of paths. -/
inductive WellNamed : List (String × Node) → Prop
  | nil : WellNamed []
  | file {name : String} {bytes : ByteArray} {rest : List (String × Node)} (part : IsPart name)
      (fresh : name ∉ rest.map (·.1)) (h : WellNamed rest) : WellNamed ((name, .file bytes) :: rest)
  | directory {name : String} {entries rest : List (String × Node)} (part : IsPart name)
      (fresh : name ∉ rest.map (·.1)) (inside : WellNamed entries) (h : WellNamed rest) :
      WellNamed ((name, .directory entries) :: rest)

/-- A file, or a directory with entries that are well named. -/
def Node.WellNamed : Node → Prop
  | .file _ => True
  | .directory entries => Files.WellNamed entries

/-- All directories of the workspace have entries that are well named. -/
structure Workspace.WellNamed (w : Workspace) : Prop where
  root : w.root.WellNamed
  elsewhere : Files.WellNamed w.elsewhere

/-- A path that goes on from a place with the given name. -/
def Path.Through (place : Path) (name : String) (p : Path) : Prop :=
  ∃ more, p = ⟨place.anchor, place.parts ++ name :: more⟩

theorem Path.Through.unique {place p : Path} {name name' : String} (h : place.Through name p)
    (h' : place.Through name' p) : name' = name := by
  obtain ⟨more, rfl⟩ := h
  obtain ⟨more', he⟩ := h'
  exact (List.cons.inj (List.append_cancel_left (congrArg Path.parts he))).1.symm

section Trees

variable {entries : List (String × Node)} {place path : Path}

/-- The files below a directory are reached through one of its entries, along parts of paths. -/
theorem through_of_mem_sourcesIn (h : WellNamed entries) (hp : place.Normal) (hmem : path ∈ sourcesIn place entries) :
    path.Normal ∧ ∃ name ∈ entries.map (·.1), place.Through name path := by
  induction h generalizing place with
  | nil => simp [sourcesIn] at hmem
  | @file name bytes rest part fresh h ih =>
    rw [sourcesIn, List.mem_append] at hmem
    rcases hmem with hmem | hmem
    · split at hmem
      · obtain rfl := List.mem_singleton.1 hmem
        exact ⟨hp.child part, name, List.mem_cons_self, [], rfl⟩
      · cases hmem
    · obtain ⟨hn, other, ho, ht⟩ := ih hp hmem
      exact ⟨hn, other, List.mem_cons_of_mem _ ho, ht⟩
  | @directory name entries rest part fresh inside h ihe ih =>
    rw [sourcesIn, List.mem_append] at hmem
    rcases hmem with hmem | hmem
    · split at hmem
      · cases hmem
      · obtain ⟨hn, other, -, more, rfl⟩ := ihe (hp.child part) hmem
        exact ⟨hn, name, List.mem_cons_self, other :: more, by simp [Path.child]⟩
    · obtain ⟨hn, other, ho, ht⟩ := ih hp hmem
      exact ⟨hn, other, List.mem_cons_of_mem _ ho, ht⟩

/-- What is reached through a name is not reached through the names of other entries. -/
theorem nodup_append_sourcesIn {rest : List (String × Node)} {paths : List Path} {name : String}
    (hr : WellNamed rest) (hp : place.Normal) (fresh : name ∉ rest.map (·.1)) (hpaths : paths.Nodup)
    (hthrough : ∀ path ∈ paths, place.Through name path) (hrest : (sourcesIn place rest).Nodup) :
    (paths ++ sourcesIn place rest).Nodup := by
  refine List.nodup_append.2 ⟨hpaths, hrest, fun path hpath other hother he => fresh ?_⟩
  obtain ⟨-, name', hname', ht⟩ := through_of_mem_sourcesIn hr hp hother
  have hsame : name' = name := (hthrough path hpath).unique (he ▸ ht)
  exact hsame ▸ hname'

theorem sourcesIn_nodup (h : WellNamed entries) (hp : place.Normal) : (sourcesIn place entries).Nodup := by
  induction h generalizing place with
  | nil => simp [sourcesIn]
  | @file name bytes rest part fresh h ih =>
    rw [sourcesIn]
    refine nodup_append_sourcesIn h hp fresh ?_ (fun path hpath => ?_) (ih hp)
    · split
      · exact List.nodup_singleton _
      · exact List.nodup_nil
    · split at hpath
      · obtain rfl := List.mem_singleton.1 hpath
        exact ⟨[], rfl⟩
      · cases hpath
  | @directory name entries rest part fresh inside h ihe ih =>
    rw [sourcesIn]
    refine nodup_append_sourcesIn h hp fresh ?_ (fun path hpath => ?_) (ih hp)
    · split
      · exact List.nodup_nil
      · exact ihe (hp.child part)
    · split at hpath
      · cases hpath
      · obtain ⟨-, other, -, more, rfl⟩ := through_of_mem_sourcesIn inside (hp.child part) hpath
        exact ⟨other :: more, by simp [Path.child]⟩

theorem normal_of_mem_sources (h : WellNamed entries) (hp : place.Normal) (hmem : path ∈ sources place entries) :
    path.Normal :=
  (through_of_mem_sourcesIn h hp (List.mem_mergeSort.1 hmem)).1

/-- The configuration files below a directory have different names. -/
theorem text_sources_nodup (h : WellNamed entries) (hp : place.Normal) :
    ((sources place entries).map Path.text).Nodup := by
  refine List.Nodup.map_on (fun p hmem q hmem' he => ?_) ?_
  · exact Path.text_inj (normal_of_mem_sources h hp hmem) (normal_of_mem_sources h hp hmem') he
  · exact (List.mergeSort_perm _ _).nodup_iff.2 (sourcesIn_nodup h hp)

theorem WellNamed.of_lookup (h : WellNamed entries) {name : String} {n : Node} (hl : entries.lookup name = some n) :
    n.WellNamed := by
  induction h with
  | nil => cases hl
  | file _ _ _ ih =>
    rw [List.lookup_cons] at hl
    split at hl
    · cases hl
      trivial
    · exact ih hl
  | directory _ _ inside _ _ ih =>
    rw [List.lookup_cons] at hl
    split at hl
    · cases hl
      exact inside
    · exact ih hl

end Trees

/-! ### Following names -/

namespace Workspace

variable {w : Workspace} {trail next : Trail}

theorem WellNamed.nodeAt (h : w.WellNamed) (ht : ∀ e ∈ trail, e.2.WellNamed) : (w.nodeAt trail).WellNamed := by
  cases trail with
  | nil => exact h.root
  | cons e below => exact ht e List.mem_cons_self

theorem WellNamed.above (ht : ∀ e ∈ trail, e.2.WellNamed) : ∀ e ∈ w.above trail, e.2.WellNamed := by
  unfold Workspace.above
  split
  · split
    · exact fun e he => nomatch he
    · intro e he
      obtain rfl := List.mem_singleton.1 he
      exact .nil
  · exact ht
  · exact fun e he => ht e (List.mem_cons_of_mem _ he)

theorem WellNamed.enter (h : w.WellNamed) {name : String} (ht : ∀ e ∈ trail, e.2.WellNamed)
    (he : w.enter trail name = .ok next) : ∀ e ∈ next, e.2.WellNamed := by
  have hn := h.nodeAt ht
  unfold Workspace.enter at he
  split at he
  · cases he
  · next entries hentries =>
    rw [hentries] at hn
    split at he
    · cases he
      exact ht
    split at he
    · cases he
      exact WellNamed.above ht
    split at he
    · cases he
    split at he
    · next n hl =>
      cases he
      exact List.forall_mem_cons.2 ⟨hn.of_lookup hl, ht⟩
    · cases he

theorem WellNamed.foldlM_enter (h : w.WellNamed) {steps : List String} (ht : ∀ e ∈ trail, e.2.WellNamed)
    (he : steps.foldlM w.enter trail = .ok next) : ∀ e ∈ next, e.2.WellNamed := by
  induction steps generalizing trail with
  | nil =>
    cases he
    exact ht
  | cons name steps ih =>
    rw [List.foldlM_cons] at he
    cases hs : w.enter trail name with
    | error e => simp [hs, bind, Except.bind] at he
    | ok first =>
      rw [hs] at he
      exact ih (h.enter ht hs) he

theorem WellNamed.route (h : w.WellNamed) {name : String} {start : Trail} {steps : List String}
    (hr : w.route name = .ok (start, steps)) : ∀ e ∈ start, e.2.WellNamed := by
  unfold Workspace.route at hr
  split at hr
  · cases hr
  split at hr
  · cases hr
    exact fun e he => nomatch he
  split at hr
  · cases hr
  split at hr
  · cases hr
    intro e he
    obtain rfl := List.mem_singleton.1 he
    exact h.elsewhere
  · cases hr
    exact fun e he => nomatch he

/-- What a name leads to in a well-named workspace is well named. -/
theorem WellNamed.nodeAt_find (h : w.WellNamed) {name : String} (hf : w.find name = .ok trail) :
    (w.nodeAt trail).WellNamed := by
  cases hr : w.route name with
  | error e => simp [find, hr, bind, Except.bind] at hf
  | ok x =>
    have hsteps : x.2.foldlM w.enter x.1 = .ok trail := by
      simpa [find, hr, bind, Except.bind] using hf
    exact h.nodeAt (h.foldlM_enter (h.route hr) hsteps)

/-- A name with nothing on the way to it is that of the root. -/
theorem find_eq_root {name : String} (h : (w.find name).toOption.map List.length = some 0) : w.find name = .ok [] := by
  cases hf : w.find name with
  | error e =>
    rw [hf] at h
    cases h
  | ok trail =>
    rw [hf] at h
    rw [List.length_eq_zero_iff.1 (Option.some.inj h)]

end Workspace

end InfraAudit.Files
