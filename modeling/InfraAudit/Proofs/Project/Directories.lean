import InfraAudit.Proofs.Files.Relisting
import InfraAudit.Proofs.Project.Independence
import InfraAudit.Proofs.Project.Workers

/-!
# InfraAudit.Proofs.Project.Directories — whole directories

* `addDirectory_relisted`: the order in which directories list their entries changes nothing.
* `addDirectory_complete`: of a directory all eligible files are read, each once and in the order of their names,
  with any number of workers.
-/

namespace InfraAudit.Project

open InfraAudit.Hcl InfraAudit.Files

section Relisting

variable {w w' : Workspace}

theorem readDocument_relisted (h : w.Relisted w') (hw : w.WellNamed) (path : Path) :
    readDocument w' path = readDocument w path := by
  rw [readDocument, readDocument, h.read_eq hw]

theorem readAll_relisted (h : w.Relisted w') (hw : w.WellNamed) (paths : List Path) :
    readAll w' paths = readAll w paths := by
  induction paths with
  | nil => rfl
  | cons path paths ih => rw [readAll, readAll, readDocument_relisted h hw, ih]

theorem listing_relisted (h : w.Relisted w') (hw : w.WellNamed) {path : Path} (hp : path.Normal) :
    listing w' path = listing w path := by
  have hf := h.find hw path.text
  have hwell {trail : Workspace.Trail} (hx : w.find path.text = .ok trail) : (w.nodeAt trail).WellNamed :=
    hw.nodeAt_find hx
  unfold listing
  generalize w.find path.text = x at hf hwell
  generalize w'.find path.text = x' at hf
  cases hf with
  | error e => cases e <;> rfl
  | @ok trail trail' ht =>
    have hn := h.nodeAt ht
    have hnode := hwell rfl
    simp only
    generalize w.nodeAt trail = n at hn hnode
    generalize w'.nodeAt trail' = n' at hn
    cases hn with
    | file => rfl
    | directory hn => exact congrArg Except.ok (hn.sources_eq hnode hp).symm

/-- The order in which directories list their entries changes nothing. -/
theorem addDirectory_relisted (h : w.Relisted w') (hw : w.WellNamed) (p : Project) (name : String) :
    p.addDirectory w' name = p.addDirectory w name := by
  unfold addDirectory addFiles
  rw [listing_relisted h hw (Path.normal_parse name)]
  split
  · rfl
  · rw [readAll_relisted h hw]

end Relisting

section Directories

variable {w : Workspace} {name : String} {path : Path} {d : Document}

theorem addDirectory_of_listing (p : Project) {paths : List Path} (h : listing w (Path.parse name) = .ok paths) :
    p.addDirectory w name = p.addFiles w paths := by
  unfold addDirectory
  rw [h]

/-- What can be read has a name that is not too long. -/
theorem nameError?_of_readDocument (h : (readDocument w path).outcome = .ok d) : nameError? path.text = none := by
  obtain ⟨bytes, hb, -⟩ := readDocument_eq_ok_iff.1 h
  cases hn : nameError? path.text with
  | none => rfl
  | some e => simp [Workspace.read, Workspace.find, Workspace.route, hn, bind, Except.bind] at hb

/-- If all eligible files of a directory can be read, then they are the files that are read, each once and in the
order of their names, and their blocks are added in that order.  Neither the order in which directories list their
entries nor the number of workers changes this. -/
theorem addDirectory_complete {trail : Workspace.Trail} {entries : List (String × Node)} (hw : w.WellNamed)
    (hf : w.find (Path.parse name).text = .ok trail) (he : w.nodeAt trail = .directory entries)
    (hread : ∀ path, Eligible (Path.parse name) entries path → ∃ d, (readDocument w path).outcome = .ok d) :
    ∃ paths ds, (∀ path, path ∈ paths ↔ Eligible (Path.parse name) entries path) ∧
      (paths.map Path.text).Pairwise (· < ·) ∧ Reads w paths ds ∧
      ∀ p : Project, (p.addAll ds).files = p.files ++ paths.map Path.text ∧
        (p.addAll ds).blocks = p.blocks ++ ds.flatMap (·.2.blocks) ∧
        ∀ w', w.Relisted w' → ∀ jobs x, p.AddsWith w' name jobs x ↔ x = .ok (p.addAll ds) := by
  have hmem (path : Path) : path ∈ sources (Path.parse name) entries ↔ Eligible (Path.parse name) entries path := by
    refine mem_sources_iff fun path he => ?_
    obtain ⟨d, hd⟩ := hread path he
    exact nameError?_of_readDocument hd
  have hwell : WellNamed entries := by
    have hn := hw.nodeAt_find hf
    rwa [he] at hn
  have hlisting : listing w (Path.parse name) = .ok (sources (Path.parse name) entries) := by
    simp only [listing, hf, he]
  obtain ⟨ds, hds⟩ := exists_reads fun path hp => hread path ((hmem path).1 hp)
  refine ⟨_, ds, hmem, sources_increasing hwell (Path.normal_parse name), hds, fun p => ⟨?_, blocks_addAll, ?_⟩⟩
  · rw [files_addAll, hds.map_fst]
  · intro w' hrel jobs x
    rw [addsWith_iff, addDirectory_relisted hrel hw, addDirectory_outcome.2 ⟨_, ds, hlisting, hds, rfl⟩]

/-- A directory that is listed in two orders, with a directory that is skipped and a name that is only a suffix. -/
theorem addDirectory_complete_nested :
    ∃ (w w' : Workspace) (entries : List (String × Node)), w.WellNamed ∧ w.find (Path.parse ".").text = .ok [] ∧
      w.nodeAt [] = .directory entries ∧
      (∀ path, Eligible (Path.parse ".") entries path → ∃ d, (readDocument w path).outcome = .ok d) ∧
      w.Relisted w' ∧
      ∃ q, (∀ jobs x, empty.AddsWith w' "." jobs x ↔ x = .ok q) ∧ q.files = ["a.tf", "a/x.tf", "b.TF"] ∧
        q.blocks.map (·.kind) = ["p", "q", "r"] := by
  let a : Node := .file "p\x7b\x7d".toUTF8
  let b : Node := .file "r\x7b\x7d".toUTF8
  let x : Node := .file "q\x7b\x7d".toUTF8
  let bad : Node := .file "=".toUTF8
  let others : List (String × Node) := [("b.TF", b), (".git", .directory [("h.tf", bad)]), (".tf", bad)]
  let entries : List (String × Node) := ("a", .directory [("y", bad), ("x.tf", x)]) :: ("a.tf", a) :: others
  let entries' : List (String × Node) := ("a.tf", a) :: ("a", .directory [("x.tf", x), ("y", bad)]) :: others
  let w : Workspace := ⟨.directory entries, "/work", [], []⟩
  let w' : Workspace := ⟨.directory entries', "/work", [], []⟩
  have hgit : WellNamed [("h.tf", bad)] := .file (by decide) (by decide) .nil
  have hinside : WellNamed [("y", bad), ("x.tf", x)] :=
    .file (by decide) (by decide) (.file (by decide) (by decide) .nil)
  have hothers : WellNamed others :=
    .file (by decide) (by decide) (.directory (by decide) (by decide) hgit (.file (by decide) (by decide) .nil))
  have hw : w.WellNamed :=
    ⟨.directory (by decide) (by decide) hinside (.file (by decide) (by decide) hothers), .nil⟩
  have hrel : w.Relisted w' :=
    ⟨.directory (.trans (.inside (.perm (.swap _ _ _)) _) (.perm (.swap _ _ _))), rfl, rfl, .refl _⟩
  have hsources : sourcesIn (.parse ".") entries' = [.parse "a.tf", .parse "a/x.tf", .parse "b.TF"] := by
    simp only [entries', others, a, b, x, bad, sourcesIn]
    decide +kernel
  have hlisting : listing w' (.parse ".") = .ok [.parse "a.tf", .parse "a/x.tf", .parse "b.TF"] :=
    hsources ▸ listing_of_pairwise (Workspace.find_eq_root (by decide +kernel)) rfl (hsources ▸ by decide +kernel)
  have hinner : ∀ path, Eligible ((Path.parse ".").child "a") [("y", bad), ("x.tf", x)] path →
      ∃ d, (readDocument w path).outcome = .ok d := by
    intro path hpath
    cases hpath with
    | file hmem hsuffix =>
      have hname := isSourceName_iff.2 hsuffix
      simp only [bad, x, List.mem_cons, Prod.mk.injEq, List.not_mem_nil, or_false] at hmem
      rcases hmem with ⟨rfl, -⟩ | ⟨rfl, -⟩
      · exact absurd hname (by decide +kernel)
      · exact exists_document (by decide +kernel)
    | directory hmem => simp [bad, x] at hmem
  have heligible : ∀ path, Eligible (Path.parse ".") entries path → ∃ d, (readDocument w path).outcome = .ok d := by
    intro path hpath
    cases hpath with
    | file hmem hsuffix =>
      have hname := isSourceName_iff.2 hsuffix
      simp only [entries, others, a, b, bad, List.mem_cons, Prod.mk.injEq, reduceCtorEq, and_false, false_or,
        List.not_mem_nil, or_false] at hmem
      rcases hmem with ⟨rfl, -⟩ | ⟨rfl, -⟩ | ⟨rfl, -⟩
      · exact exists_document (by decide +kernel)
      · exact exists_document (by decide +kernel)
      · exact absurd hname (by decide +kernel)
    | directory hmem hname h =>
      simp only [entries, others, a, b, bad, List.mem_cons, Prod.mk.injEq, reduceCtorEq, and_false, false_or,
        List.not_mem_nil, or_false, Node.directory.injEq] at hmem
      rcases hmem with ⟨rfl, rfl⟩ | ⟨rfl, -⟩
      · exact hinner path h
      · exact absurd (by decide) hname
  obtain ⟨paths, ds, -, -, -, hadd⟩ := addDirectory_complete hw (Workspace.find_eq_root (by decide +kernel)) rfl heligible
  obtain ⟨-, -, hsame⟩ := hadd empty
  refine ⟨w, w', entries, hw, Workspace.find_eq_root (by decide +kernel), rfl, heligible, hrel, _, fun jobs x => hsame w' hrel jobs x, ?_⟩
  have hq : (empty.addDirectory w' ".").outcome = .ok (empty.addAll ds) := (hsame w' hrel 1 _).1 (addsWith_iff.2 rfl)
  have hfiles := addDirectory_of_listing empty hlisting
  have hseen : (empty.addFiles w' [.parse "a.tf", .parse "a/x.tf", .parse "b.TF"]).outcome.toOption.map
      (fun q => (q.files, q.blocks.map (·.kind))) = some (["a.tf", "a/x.tf", "b.TF"], ["p", "q", "r"]) := by
    decide +kernel
  rw [← hfiles, hq] at hseen
  exact Prod.mk.inj (Option.some.inj hseen)

end Directories

end InfraAudit.Project
