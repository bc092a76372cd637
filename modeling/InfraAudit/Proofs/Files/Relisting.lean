import InfraAudit.Proofs.Files.Listing
import Mathlib.Data.List.Forall2
import Mathlib.Data.List.Perm.Basic

/-!
# InfraAudit.Proofs.Files.Relisting — directories list their entries in any order

* `Relisted`: entries in another order, and so on inside of directories.
* `Relisted.lookup`, `Relisted.sourcesIn_perm`: what a name leads to, and the files that are found.
* `Relisted.sources_eq`: sorted by their names they are the same, in the same order.
* `Workspace.Relisted.find`, `Workspace.Relisted.read_eq`: every name leads to the same place and the same bytes.
-/

namespace InfraAudit.Files

/-- The entries in another order, and those of the directories in them. -/
inductive Relisted : List (String × Node) → List (String × Node) → Prop
  | perm {entries entries' : List (String × Node)} (h : entries.Perm entries') : Relisted entries entries'
  | inside {name : String} {entries entries' : List (String × Node)} (h : Relisted entries entries')
      (rest : List (String × Node)) :
      Relisted ((name, .directory entries) :: rest) ((name, .directory entries') :: rest)
  | trans {entries entries' entries'' : List (String × Node)} (h : Relisted entries entries')
      (h' : Relisted entries' entries'') : Relisted entries entries''

/-- A file, or a directory with its entries in another order. -/
inductive Node.Relisted : Node → Node → Prop
  | file (bytes : ByteArray) : Node.Relisted (.file bytes) (.file bytes)
  | directory {entries entries' : List (String × Node)} (h : Files.Relisted entries entries') :
      Node.Relisted (.directory entries) (.directory entries')

/-! ### Entries -/

theorem Relisted.refl (entries : List (String × Node)) : Relisted entries entries :=
  .perm (.refl _)

theorem Node.Relisted.refl (n : Node) : n.Relisted n := by
  cases n with
  | file bytes => exact .file bytes
  | directory entries => exact .directory (Files.Relisted.refl entries)

theorem Node.Relisted.trans {n n' n'' : Node} (h : n.Relisted n') (h' : n'.Relisted n'') : n.Relisted n'' := by
  cases h with
  | file => exact h'
  | directory h =>
    cases h' with
    | directory h' => exact .directory (h.trans h')

theorem relisted_refl (o : Option Node) : Option.Rel Node.Relisted o o := by
  cases o with
  | none => exact .none
  | some n => exact .some (.refl n)

theorem relisted_trans {o o' o'' : Option Node} (h : Option.Rel Node.Relisted o o')
    (h' : Option.Rel Node.Relisted o' o'') : Option.Rel Node.Relisted o o'' := by
  cases h with
  | none => exact h'
  | some h =>
    cases h' with
    | some h' => exact .some (h.trans h')

theorem wellNamed_iff {entries : List (String × Node)} :
    WellNamed entries ↔ (entries.map (·.1)).Nodup ∧ ∀ e ∈ entries, IsPart e.1 ∧ e.2.WellNamed := by
  constructor
  · intro h
    induction h with
    | nil => simp
    | file part fresh _ ih =>
      exact ⟨List.nodup_cons.2 ⟨fresh, ih.1⟩, List.forall_mem_cons.2 ⟨⟨part, trivial⟩, ih.2⟩⟩
    | directory part fresh inside _ _ ih =>
      exact ⟨List.nodup_cons.2 ⟨fresh, ih.1⟩, List.forall_mem_cons.2 ⟨⟨part, inside⟩, ih.2⟩⟩
  · rintro ⟨hn, he⟩
    induction entries with
    | nil => exact .nil
    | cons e rest ih =>
      obtain ⟨fresh, hrest⟩ := List.nodup_cons.1 hn
      obtain ⟨⟨part, hnode⟩, hnodes⟩ := List.forall_mem_cons.1 he
      obtain ⟨name, bytes | inside⟩ := e
      · exact .file part fresh (ih hrest hnodes)
      · exact .directory part fresh hnode (ih hrest hnodes)

/-- A name is that of the same entry, whatever the order of the entries. -/
theorem lookup_perm {entries entries' : List (String × Node)} (h : entries.Perm entries')
    (hn : (entries.map (·.1)).Nodup) (name : String) : entries.lookup name = entries'.lookup name := by
  induction h with
  | nil => rfl
  | cons x _ ih =>
    obtain ⟨a, n⟩ := x
    rw [List.lookup_cons, List.lookup_cons, ih (List.nodup_cons.1 hn).2]
  | swap x y rest =>
    have hne : y.1 ≠ x.1 := List.rel_of_pairwise_cons hn List.mem_cons_self
    obtain ⟨a, n⟩ := x
    obtain ⟨b, m⟩ := y
    simp only [List.lookup_cons]
    cases hb : name == b with
    | false => rfl
    | true =>
      have ha : (name == a) = false := beq_eq_false_iff_ne.2 (by rw [beq_iff_eq.1 hb]; exact hne)
      rw [ha]
  | trans h _ ih ih' => rw [ih hn, ih' ((h.map _).nodup_iff.1 hn)]

namespace Relisted

variable {entries entries' : List (String × Node)} {place : Path}

theorem wellNamed (h : Relisted entries entries') (hw : WellNamed entries) : WellNamed entries' := by
  induction h with
  | perm h =>
    obtain ⟨hn, he⟩ := wellNamed_iff.1 hw
    exact wellNamed_iff.2 ⟨(h.map _).nodup_iff.1 hn, fun e hmem => he e (h.mem_iff.2 hmem)⟩
  | inside _ rest ih =>
    cases hw with
    | directory part fresh inside hw => exact .directory part fresh (ih inside) hw
  | trans _ _ ih ih' => exact ih' (ih hw)

/-- A name is that of the same file or directory, whatever the order of the entries. -/
theorem lookup (h : Relisted entries entries') (hw : WellNamed entries) (name : String) :
    Option.Rel Node.Relisted (entries.lookup name) (entries'.lookup name) := by
  induction h with
  | perm h =>
    rw [lookup_perm h (wellNamed_iff.1 hw).1]
    exact relisted_refl _
  | inside h rest _ =>
    rw [List.lookup_cons, List.lookup_cons]
    split
    · exact .some (.directory h)
    · exact relisted_refl _
  | trans h _ ih ih' => exact relisted_trans (ih hw) (ih' (h.wellNamed hw))

/-- The same files are found. -/
theorem sourcesIn_perm (h : Relisted entries entries') (place : Path) :
    (sourcesIn place entries).Perm (sourcesIn place entries') := by
  induction h generalizing place with
  | perm h =>
    rw [sourcesIn_eq_flatMap, sourcesIn_eq_flatMap]
    exact h.flatMap_right _
  | inside _ rest ih =>
    rw [sourcesIn, sourcesIn]
    refine List.Perm.append_right _ ?_
    split
    · exact .refl _
    · exact ih _
  | trans _ _ ih ih' => exact (ih place).trans (ih' place)

/-- The files that are found are the same in the same order. -/
theorem sources_eq (h : Relisted entries entries') (hw : WellNamed entries) (hp : place.Normal) :
    sources place entries = sources place entries' := by
  have hperm : (sources place entries).Perm (sources place entries') :=
    (List.mergeSort_perm _ _).trans ((h.sourcesIn_perm place).trans (List.mergeSort_perm _ _).symm)
  refine hperm.eq_of_pairwise (fun p q hmem hmem' hpq hqp => ?_) (pairwise_sources _ _) (pairwise_sources _ _)
  exact Path.text_inj (normal_of_mem_sources hw hp hmem) (normal_of_mem_sources (h.wellNamed hw) hp hmem')
    (String.le_antisymm hpq hqp)

end Relisted

/-! ### Workspaces -/

/-- The same files below the same places, whatever the order in which directories list their entries. -/
structure Workspace.Relisted (w w' : Workspace) : Prop where
  root : w.root.Relisted w'.root
  location : w'.location = w.location
  current : w'.current = w.current
  elsewhere : Files.Relisted w.elsewhere w'.elsewhere

namespace Workspace

theorem Relisted.refl (w : Workspace) : w.Relisted w :=
  ⟨.refl _, rfl, rfl, .refl _⟩

/-- The same names on the way, to nodes that are relisted. -/
def Along (trail trail' : Trail) : Prop :=
  List.Forall₂ (fun e e' => e'.1 = e.1 ∧ e.2.Relisted e'.2) trail trail'

/-- The same error, or results that are related. -/
inductive Alike {ε α : Type} (r : α → α → Prop) : Except ε α → Except ε α → Prop
  | error (e : ε) : Alike r (.error e) (.error e)
  | ok {a a' : α} (h : r a a') : Alike r (.ok a) (.ok a')

section Names

variable {w w' : Workspace} {trail trail' : Trail}

theorem Relisted.nodeAt (h : w.Relisted w') (ht : Along trail trail') : (w.nodeAt trail).Relisted (w'.nodeAt trail') := by
  cases ht with
  | nil => exact h.root
  | cons he _ => exact he.2

theorem above_cons (w : Workspace) (e : String × Node) (below : Trail) :
    w.above (e :: below) = if e.1 = "" ∧ below = [] then [e] else below := by
  obtain ⟨name, n⟩ := e
  by_cases hroot : name = "" ∧ below = []
  · obtain ⟨rfl, rfl⟩ := hroot
    rfl
  · rw [if_neg hroot, above]
    intro m he hb
    exact hroot ⟨congrArg Prod.fst he, hb⟩

theorem Relisted.above (h : w.Relisted w') (ht : Along trail trail') : Along (w.above trail) (w'.above trail') := by
  cases ht with
  | nil =>
    rw [Workspace.above, Workspace.above, h.location]
    split
    · exact .nil
    · exact .cons ⟨rfl, .refl _⟩ .nil
  | @cons e e' below below' he hbelow =>
    have hnil : below' = [] ↔ below = [] := by
      rw [← List.length_eq_zero_iff, ← List.length_eq_zero_iff, hbelow.length_eq]
    rw [above_cons, above_cons, he.1]
    by_cases hroot : e.1 = "" ∧ below = []
    · rw [if_pos hroot, if_pos ⟨hroot.1, hnil.2 hroot.2⟩]
      exact .cons he .nil
    · rw [if_neg hroot, if_neg fun hr => hroot ⟨hr.1, hnil.1 hr.2⟩]
      exact hbelow

theorem Relisted.enter (h : w.Relisted w') (hw : w.WellNamed) (ht : Along trail trail')
    (hn : ∀ e ∈ trail, e.2.WellNamed) (name : String) : Alike Along (w.enter trail name) (w'.enter trail' name) := by
  have hnode := h.nodeAt ht
  have hwell := hw.nodeAt hn
  unfold Workspace.enter
  generalize w.nodeAt trail = n at hnode hwell
  generalize w'.nodeAt trail' = n' at hnode
  cases hnode with
  | file => exact .error _
  | @directory entries entries' hrel =>
    simp only
    split
    · exact .ok ht
    split
    · exact .ok (h.above ht)
    split
    · exact .error _
    have hl := hrel.lookup hwell name
    generalize entries.lookup name = o at hl
    generalize entries'.lookup name = o' at hl
    cases hl with
    | none => exact .error _
    | some hm => exact .ok (.cons ⟨rfl, hm⟩ ht)

theorem Relisted.foldlM_enter (h : w.Relisted w') (hw : w.WellNamed) (steps : List String) (ht : Along trail trail')
    (hn : ∀ e ∈ trail, e.2.WellNamed) :
    Alike Along (steps.foldlM w.enter trail) (steps.foldlM w'.enter trail') := by
  induction steps generalizing trail trail' with
  | nil => exact .ok ht
  | cons name steps ih =>
    rw [List.foldlM_cons, List.foldlM_cons]
    have he := h.enter hw ht hn name
    have hnext {next : Trail} (hx : w.enter trail name = .ok next) : ∀ e ∈ next, e.2.WellNamed := hw.enter hn hx
    generalize w.enter trail name = x at he hnext
    generalize w'.enter trail' name = x' at he
    cases he with
    | error e => exact .error e
    | ok ha => exact ih ha (hnext rfl)

/-- A name starts at the same place. -/
theorem Relisted.route (h : w.Relisted w') (name : String) :
    Alike (fun x x' => x'.2 = x.2 ∧ Along x.1 x'.1) (w.route name) (w'.route name) := by
  have hbelow : w'.below? name = w.below? name := by rw [below?, below?, h.location]
  unfold Workspace.route
  rw [hbelow]
  split
  · exact .error _
  split
  · exact .ok ⟨rfl, .nil⟩
  split
  · exact .error _
  split
  · exact .ok ⟨rfl, .cons ⟨rfl, .directory h.elsewhere⟩ .nil⟩
  · exact .ok ⟨by rw [h.current], .nil⟩

/-- A name leads to the same place. -/
theorem Relisted.find (h : w.Relisted w') (hw : w.WellNamed) (name : String) :
    Alike Along (w.find name) (w'.find name) := by
  have hr := h.route name
  have hstart {start : Trail} {steps : List String} (hx : w.route name = .ok (start, steps)) :
      ∀ e ∈ start, e.2.WellNamed := hw.route hx
  unfold Workspace.find
  generalize w.route name = x at hr hstart
  generalize w'.route name = x' at hr
  cases hr with
  | error e => exact .error e
  | @ok a a' ha =>
    obtain ⟨start, steps⟩ := a
    obtain ⟨start', steps'⟩ := a'
    obtain ⟨rfl, ha⟩ := ha
    exact h.foldlM_enter hw _ ha (hstart rfl)

/-- A file has the same bytes. -/
theorem Relisted.read_eq (h : w.Relisted w') (hw : w.WellNamed) (name : String) : w'.read name = w.read name := by
  have hf := h.find hw name
  unfold Workspace.read
  generalize w.find name = x at hf
  generalize w'.find name = x' at hf
  cases hf with
  | error e => rfl
  | @ok trail trail' ht =>
    have hn := h.nodeAt ht
    simp only
    generalize w.nodeAt trail = n at hn
    generalize w'.nodeAt trail' = n' at hn
    cases hn <;> rfl

end Names

end Workspace

end InfraAudit.Files
