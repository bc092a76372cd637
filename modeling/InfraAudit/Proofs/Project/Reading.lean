import InfraAudit.Proofs.Hcl.Inversion
import InfraAudit.Proofs.Ignore.Suppression
import Mathlib.Data.List.Forall2

/-!
# InfraAudit.Proofs.Project.Reading — what files add to a project

* `Reads`: files with their documents, one by one; `readAll_eq_ok_iff`: what is read together is read one by one.
* `files_addAll`, `blocks_addAll`, `suppresses_addAll`: the parts of a project to which documents are added.
* `addFile_outcome`, `addDirectory_outcome`: a file or a directory adds its documents or nothing.
-/

namespace InfraAudit.Project

open InfraAudit.Hcl InfraAudit.Files

section Documents

variable {w : Workspace} {path : Path} {paths : List Path} {d : Document} {ds : List (String × Document)}

theorem readDocument_eq_ok_iff :
    (readDocument w path).outcome = .ok d ↔
      ∃ bytes, w.read path.text = .ok bytes ∧ (Document.parse path.text (Text.readText bytes)).outcome = .ok d := by
  unfold readDocument
  split
  · next h => simp [h]
  · next h => simp [h]
  · next bytes h =>
    rw [h, Document.mapError_eq_ok_iff]
    constructor
    · exact fun hd => ⟨bytes, rfl, hd⟩
    · rintro ⟨_, hb, hd⟩
      exact Except.ok.inj hb ▸ hd

/-- The documents are those of the files, under their names. -/
def Reads (w : Workspace) (paths : List Path) (ds : List (String × Document)) : Prop :=
  List.Forall₂ (fun path x => x.1 = path.text ∧ (readDocument w path).outcome = .ok x.2) paths ds

theorem readAll_eq_ok_iff : (readAll w paths).outcome = .ok ds ↔ Reads w paths ds := by
  induction paths generalizing ds with
  | nil =>
    rw [Reads, List.forall₂_nil_left_iff]
    exact ⟨fun h => (Except.ok.inj h).symm, fun h => h ▸ rfl⟩
  | cons path paths ih =>
    simp only [Reads, List.forall₂_cons_left_iff]
    unfold readAll
    simp only
    split
    · next e he =>
      constructor
      · exact fun h => nomatch h
      · rintro ⟨x, _, ⟨-, hx⟩, -, -⟩
        rw [hx] at he
        cases he
    · next d hd =>
      constructor
      · intro h
        obtain ⟨more, hmore, rfl⟩ := Document.eq_ok_of_map h
        exact ⟨_, more, ⟨rfl, hd⟩, ih.1 hmore, rfl⟩
      · rintro ⟨⟨name, d'⟩, more, ⟨rfl, hd'⟩, hmore, rfl⟩
        rw [hd] at hd'
        cases hd'
        simp only
        rw [ih.2 hmore]
        rfl

theorem exists_document (h : (readDocument w path).outcome.isOk = true) :
    ∃ d, (readDocument w path).outcome = .ok d := by
  cases hd : (readDocument w path).outcome with
  | error e => rw [hd] at h; cases h
  | ok d => exact ⟨d, rfl⟩

/-- Files that can all be read have documents. -/
theorem exists_reads (h : ∀ path ∈ paths, ∃ d, (readDocument w path).outcome = .ok d) : ∃ ds, Reads w paths ds := by
  induction paths with
  | nil => exact ⟨[], .nil⟩
  | cons path paths ih =>
    obtain ⟨⟨d, hd⟩, h⟩ := List.forall_mem_cons.1 h
    obtain ⟨ds, hds⟩ := ih h
    exact ⟨(path.text, d) :: ds, .cons ⟨rfl, hd⟩ hds⟩

theorem Reads.map_fst (h : Reads w paths ds) : ds.map (·.1) = paths.map Path.text := by
  induction h with
  | nil => rfl
  | cons hx _ ih => rw [List.map_cons, List.map_cons, hx.1, ih]

theorem Reads.exists_mem (h : Reads w paths ds) (hp : path ∈ paths) :
    ∃ d, (readDocument w path).outcome = .ok d ∧ (path.text, d) ∈ ds := by
  induction h with
  | nil => cases hp
  | @cons other x others more hx _ ih =>
    rcases List.mem_cons.1 hp with rfl | hp
    · exact ⟨x.2, hx.2, hx.1 ▸ List.mem_cons_self⟩
    · obtain ⟨d, hd, hmem⟩ := ih hp
      exact ⟨d, hd, List.mem_cons_of_mem _ hmem⟩

/-- A document that is read is that of some text under its name. -/
theorem Reads.exists_parse (h : Reads w paths ds) {x : String × Document} (hx : x ∈ ds) :
    ∃ source, (Document.parse x.1 source).outcome = .ok x.2 := by
  induction h with
  | nil => cases hx
  | @cons path y _ _ hy _ ih =>
    rcases List.mem_cons.1 hx with rfl | hx
    · obtain ⟨bytes, -, hd⟩ := readDocument_eq_ok_iff.1 hy.2
      exact ⟨Text.readText bytes, hy.1 ▸ hd⟩
    · exact ih hx

end Documents

section Additions

variable {w : Workspace} {name : String} {ds : List (String × Document)} {p q : Project}

theorem files_addAll : (p.addAll ds).files = p.files ++ ds.map (·.1) := by
  induction ds generalizing p with
  | nil => rw [List.map_nil, List.append_nil]; rfl
  | cons x ds ih =>
    have hx : (p.addAll (x :: ds)).files = ((p.add x.1 x.2).addAll ds).files := rfl
    rw [hx, ih, add, List.append_assoc]
    rfl

theorem blocks_addAll : (p.addAll ds).blocks = p.blocks ++ ds.flatMap (·.2.blocks) := by
  induction ds generalizing p with
  | nil => rw [List.flatMap_nil, List.append_nil]; rfl
  | cons x ds ih =>
    have hx : (p.addAll (x :: ds)).blocks = ((p.add x.1 x.2).addAll ds).blocks := rfl
    rw [hx, ih, add, List.append_assoc]
    rfl

theorem ignores_addAll :
    (p.addAll ds).ignores = ds.foldl (fun ix x => ix.addComments x.1 x.2.comments) p.ignores := by
  induction ds generalizing p with
  | nil => rfl
  | cons x ds ih => exact ih

theorem suppresses_addAll (f : Finding) :
    (p.addAll ds).ignores.suppresses f =
      (p.ignores.suppresses f || ds.any fun x => x.2.comments.any (Ignore.covers x.1 f)) := by
  induction ds generalizing p with
  | nil => rw [List.any_nil, Bool.or_false]; rfl
  | cons x ds ih =>
    have hx : (p.addAll (x :: ds)).ignores = ((p.add x.1 x.2).addAll ds).ignores := rfl
    rw [hx, ih, add, Ignore.Index.suppresses_addComments, List.any_cons, Bool.or_assoc]

theorem addFiles_outcome (p : Project) (w : Workspace) (paths : List Path) :
    (p.addFiles w paths).outcome = (readAll w paths).outcome.map p.addAll := rfl

/-- A file adds its document or nothing. -/
theorem addFile_outcome :
    (p.addFile w name).outcome = .ok q ↔
      ∃ d, (readDocument w (Path.parse name)).outcome = .ok d ∧ q = p.add (Path.parse name).text d := by
  rw [addFile, addFiles_outcome]
  constructor
  · intro h
    obtain ⟨ds, hds, rfl⟩ := Document.eq_ok_of_map h
    obtain ⟨d, hd, hmem⟩ := (readAll_eq_ok_iff.1 hds).exists_mem List.mem_cons_self
    obtain ⟨x, rfl⟩ := List.length_eq_one_iff.1 (List.Forall₂.length_eq (readAll_eq_ok_iff.1 hds)).symm
    obtain rfl := List.mem_singleton.1 hmem
    exact ⟨d, hd, rfl⟩
  · rintro ⟨d, hd, rfl⟩
    have hreads : Reads w [Path.parse name] [((Path.parse name).text, d)] := .cons ⟨rfl, hd⟩ .nil
    rw [readAll_eq_ok_iff.2 hreads]
    rfl

theorem addDirectory_outcome_eq (p : Project) (w : Workspace) (name : String) :
    (p.addDirectory w name).outcome =
      (listing w (Path.parse name) >>= fun paths => (readAll w paths).outcome).map p.addAll := by
  unfold addDirectory
  split
  · next e hl => rw [hl]; rfl
  · next paths hl => rw [hl]; exact addFiles_outcome p w paths

/-- A directory adds the documents of all its configuration files or nothing. -/
theorem addDirectory_outcome :
    (p.addDirectory w name).outcome = .ok q ↔
      ∃ paths ds, listing w (Path.parse name) = .ok paths ∧ Reads w paths ds ∧ q = p.addAll ds := by
  rw [addDirectory_outcome_eq]
  constructor
  · intro h
    obtain ⟨ds, hread, rfl⟩ := Document.eq_ok_of_map h
    obtain ⟨paths, hl, hds⟩ := Document.eq_ok_of_bind hread
    exact ⟨paths, ds, hl, readAll_eq_ok_iff.1 hds, rfl⟩
  · rintro ⟨paths, ds, hl, hds, rfl⟩
    rw [hl]
    exact congrArg (Except.map p.addAll) (readAll_eq_ok_iff.2 hds)

end Additions

end InfraAudit.Project
