import InfraAudit.Proofs.Check.Reporting
import InfraAudit.Proofs.Files.Naming
import InfraAudit.Proofs.Hcl.Enclosure
import InfraAudit.Proofs.Project.Reading
import InfraAudit.Proofs.Scan.Grouping

/-!
# InfraAudit.Proofs.Project.Independence — files do not influence each other

* `filename_of_mem_findings`: what a check finds in a file, if it stays in the block it looks at, carries its name.
* `suppresses_addAll_of_mem`: of the directives in many files only those in the file of a finding matter to it.
* `findings_addAll`: what is found in many files with different names, and lies in one of them, is what is found in
  that file alone.
* `findings_addDirectory`: what is found in a file of a directory depends on that file alone.
-/

namespace InfraAudit

open InfraAudit.Hcl InfraAudit.Files

/-- What is found in the files of a project and not suppressed by their directives. -/
def Project.findings (p : Project) (r : Registry) : List Finding :=
  scan r (some p.ignores) p.blocks

/-- The findings in one file. -/
def inFile (filename : String) (fs : List Finding) : List Finding :=
  fs.filter (·.range.filename == filename)

/-! ### Names in ranges -/

section Names

variable {filename source : String} {d : Document}

theorem filename_of_mem_ranges (h : (Document.parse filename source).outcome = .ok d) {b : Block}
    (hb : b ∈ Block.walkAll d.blocks) {r : SourceRange} (hr : r ∈ b.ranges) : r.filename = filename := by
  obtain ⟨as, harranged⟩ := Document.arranged_of_parse h
  obtain ⟨c, hc, hr⟩ := List.mem_flatMap.1 hr
  obtain ⟨hblock, hattributes, -⟩ := harranged.walk c (Block.walk_subset_walkAll _ hb hc)
  rcases List.mem_cons.1 hr with rfl | hr
  · exact hblock.1
  · obtain ⟨a, ha, rfl⟩ := List.mem_map.1 hr
    exact (hattributes a ha).1

theorem filename_of_mem_findings (h : (Document.parse filename source).outcome = .ok d) {c : Check} (hc : c.Local)
    {f : Finding} (hf : f ∈ Scan.findings (sites d.blocks) c) : f.range.filename = filename := by
  obtain ⟨s, hs, hf⟩ := Scan.mem_findings.1 hf
  exact filename_of_mem_ranges h (block_mem_walkAll hs) (hc s f hf)

theorem filename_of_covers {f : Finding} {c : Comment} (h : Ignore.covers filename f c = true) :
    f.range.filename = filename := by
  unfold Ignore.covers at h
  cases hd : Ignore.directive? c.text with
  | none => simp [hd] at h
  | some scope =>
    simp only [hd, Option.any_some, Ignore.Scope.covers, Bool.and_eq_true, beq_iff_eq] at h
    exact h.1.1.1.symm

end Names

/-! ### One of many files -/

/-- If all members of a list but one give nothing, that one gives everything. -/
theorem flatMap_eq_of_unique {α β : Type} {l : List α} {a : α} {g : α → List β} (hn : l.Nodup) (ha : a ∈ l)
    (h : ∀ x ∈ l, x ≠ a → g x = []) : l.flatMap g = g a := by
  obtain ⟨s, t, rfl⟩ := List.append_of_mem ha
  have hnot : a ∉ s ++ t := (List.nodup_cons.1 (List.nodup_middle.1 hn)).1
  rw [List.mem_append, not_or] at hnot
  have hs : s.flatMap g = [] := List.flatMap_eq_nil_iff.2 fun x hx =>
    h x (List.mem_append_left _ hx) fun he => hnot.1 (he ▸ hx)
  have ht : t.flatMap g = [] := List.flatMap_eq_nil_iff.2 fun x hx =>
    h x (List.mem_append_right _ (List.mem_cons_of_mem _ hx)) fun he => hnot.2 (he ▸ hx)
  rw [List.flatMap_append, List.flatMap_cons, hs, ht, List.nil_append, List.append_nil]

namespace Project

section Files

variable {ds : List (String × Document)} {filename : String} {d : Document} {r : Registry}

theorem inFile_findings (hn : (ds.map (·.1)).Nodup)
    (hd : ∀ x ∈ ds, ∃ source, (Document.parse x.1 source).outcome = .ok x.2) (hmem : (filename, d) ∈ ds) {c : Check}
    (hc : c.Local) :
    inFile filename (Scan.findings (sites (ds.flatMap (·.2.blocks))) c) = Scan.findings (sites d.blocks) c := by
  rw [inFile, sites_flatMap, Scan.findings_flatMap, List.filter_flatMap, flatMap_eq_of_unique hn.of_map hmem]
  · obtain ⟨source, hs⟩ := hd _ hmem
    exact List.filter_eq_self.2 fun f hf => beq_iff_eq.2 (filename_of_mem_findings hs hc hf)
  · intro x hx hne
    obtain ⟨source, hs⟩ := hd x hx
    refine List.filter_eq_nil_iff.2 fun f hf he => hne ?_
    have hname : x.1 = filename := (filename_of_mem_findings hs hc hf).symm.trans (beq_iff_eq.1 he)
    exact List.inj_on_of_nodup_map hn hx hmem hname

theorem suppresses_addAll_of_mem (hn : (ds.map (·.1)).Nodup) (hmem : (filename, d) ∈ ds) {f : Finding}
    (hf : f.range.filename = filename) :
    (empty.addAll ds).ignores.suppresses f = (empty.add filename d).ignores.suppresses f := by
  have hadd : empty.add filename d = empty.addAll [(filename, d)] := rfl
  rw [hadd, suppresses_addAll, suppresses_addAll, List.any_cons, List.any_nil, Bool.or_false]
  refine congrArg (empty.ignores.suppresses f || ·) (Bool.eq_iff_iff.2 ⟨fun h => ?_, fun h => ?_⟩)
  · obtain ⟨x, hx, h⟩ := List.any_eq_true.1 h
    obtain ⟨comment, -, hcovers⟩ := List.any_eq_true.1 h
    have hname : x.1 = filename := (filename_of_covers hcovers).symm.trans hf
    obtain rfl := List.inj_on_of_nodup_map hn hx hmem hname
    exact h
  · exact List.any_eq_true.2 ⟨_, hmem, h⟩

/-- What is found in many files and lies in one of them is what is found in that one alone. -/
theorem findings_addAll (hn : (ds.map (·.1)).Nodup)
    (hd : ∀ x ∈ ds, ∃ source, (Document.parse x.1 source).outcome = .ok x.2) (hmem : (filename, d) ∈ ds)
    (hr : ∀ c ∈ r.checks, c.Local) :
    inFile filename ((empty.addAll ds).findings r) = (empty.add filename d).findings r := by
  have hfound : inFile filename (r.checks.flatMap (Scan.findings (sites (empty.addAll ds).blocks))) =
      r.checks.flatMap (Scan.findings (sites d.blocks)) := by
    have hblocks : (empty.addAll ds).blocks = ds.flatMap (·.2.blocks) := blocks_addAll
    rw [inFile, List.filter_flatMap, hblocks]
    exact List.flatMap_congr fun c hc => inFile_findings hn hd hmem (hr c hc)
  obtain ⟨source, hs⟩ := hd _ hmem
  have hshown : ∀ f ∈ r.checks.flatMap (Scan.findings (sites d.blocks)),
      Scan.shown (some (empty.addAll ds).ignores) f = Scan.shown (some (empty.add filename d).ignores) f := by
    intro f hf
    obtain ⟨c, hc, hf⟩ := List.mem_flatMap.1 hf
    have hname := filename_of_mem_findings hs (hr c hc) hf
    exact congrArg (!·) (suppresses_addAll_of_mem hn hmem hname)
  rw [findings, findings, scan_eq, scan_eq, inFile, List.filter_comm]
  exact (congrArg (List.filter _) hfound).trans (List.filter_congr hshown)

end Files

/-! ### Directories -/

section Directories

variable {w : Workspace} {name : String} {paths : List Path} {path : Path}

theorem listing_eq_ok_inv (h : listing w path = .ok paths) :
    ∃ trail entries, w.find path.text = .ok trail ∧ w.nodeAt trail = .directory entries ∧
      paths = sources path entries := by
  unfold listing at h
  split at h
  · cases h
  · cases h
  · next trail hf =>
    split at h
    · cases h
    · next entries he =>
      cases h
      exact ⟨trail, entries, hf, he, rfl⟩

/-- The files of a directory that are found in the order of their paths. -/
theorem listing_of_pairwise {trail : Workspace.Trail} {entries : List (String × Node)}
    (hf : w.find path.text = .ok trail) (he : w.nodeAt trail = .directory entries)
    (hs : (sourcesIn path entries).Pairwise fun p q => p.text ≤ q.text) :
    listing w path = .ok (sourcesIn path entries) := by
  have hsorted : sources path entries = sourcesIn path entries := List.mergeSort_of_pairwise (by simpa using hs)
  simp only [listing, hf, he, hsorted]

/-- The name is that of a directory in a tree of files, its configuration files are the given ones, and each of them
can be read. -/
structure Readable (w : Workspace) (name : String) (paths : List Path) : Prop where
  wellNamed : w.WellNamed
  listed : listing w (Path.parse name) = .ok paths
  read : ∀ path ∈ paths, ∃ d, (readDocument w path).outcome = .ok d

theorem Readable.sources (h : Readable w name paths) :
    ∃ entries, WellNamed entries ∧ paths = sources (Path.parse name) entries := by
  obtain ⟨trail, entries, hf, he, rfl⟩ := listing_eq_ok_inv h.listed
  have hn := h.wellNamed.nodeAt_find hf
  rw [he] at hn
  exact ⟨entries, hn, rfl⟩

theorem Readable.parse_text (h : Readable w name paths) (hp : path ∈ paths) : Path.parse path.text = path := by
  obtain ⟨entries, hn, rfl⟩ := h.sources
  exact Path.parse_text (normal_of_mem_sources hn (Path.normal_parse name) hp)

/-- All files of a readable directory are added; what is found in one of them is what is found in it alone. -/
theorem Readable.findings (h : Readable w name paths) {r : Registry} (hr : ∀ c ∈ r.checks, c.Local) :
    ∃ p, (empty.addDirectory w name).outcome = .ok p ∧
      ∀ path ∈ paths, ∃ d, (readDocument w path).outcome = .ok d ∧
        inFile path.text (p.findings r) = (empty.add path.text d).findings r := by
  obtain ⟨ds, hds⟩ := exists_reads h.read
  refine ⟨_, addDirectory_outcome.2 ⟨paths, ds, h.listed, hds, rfl⟩, fun path hp => ?_⟩
  obtain ⟨d, hd, hmem⟩ := hds.exists_mem hp
  have hnames : (ds.map (·.1)).Nodup := by
    obtain ⟨entries, hn, rfl⟩ := h.sources
    rw [hds.map_fst]
    exact text_sources_nodup hn (Path.normal_parse name)
  exact ⟨d, hd, findings_addAll hnames (fun x hx => hds.exists_parse hx) hmem hr⟩

/-- What is found in a directory and lies in one of its configuration files is what is found in that file alone, with
its own directives.  So it is the same, in the same order, in any other tree of files in which that file is the same.
All built-in checks report only ranges in the block they look at, as is asked of the checks here. -/
theorem findings_addDirectory (h : Readable w name paths) {r : Registry} (hr : ∀ c ∈ r.checks, c.Local) :
    (∀ c ∈ builtins, c.Local) ∧
      ∃ p, (empty.addDirectory w name).outcome = .ok p ∧
        ∀ path ∈ paths,
          (∃ q, (empty.addFile w path.text).outcome = .ok q ∧ inFile path.text (p.findings r) = q.findings r) ∧
          ∀ w' name' paths', Readable w' name' paths' → path ∈ paths' → w'.read path.text = w.read path.text →
            ∃ p', (empty.addDirectory w' name').outcome = .ok p' ∧
              inFile path.text (p'.findings r) = inFile path.text (p.findings r) := by
  obtain ⟨p, hp, hfiles⟩ := h.findings hr
  refine ⟨Check.local_builtins, p, hp, fun path hmem => ⟨?_, fun w' name' paths' h' hmem' hread => ?_⟩⟩
  · obtain ⟨d, hd, hfound⟩ := hfiles path hmem
    have htext := h.parse_text hmem
    exact ⟨_, addFile_outcome.2 ⟨d, htext.symm ▸ hd, rfl⟩, by rw [hfound, htext]⟩
  · obtain ⟨p', hp', hfiles'⟩ := h'.findings hr
    obtain ⟨d, hd, hfound⟩ := hfiles path hmem
    obtain ⟨d', hd', hfound'⟩ := hfiles' path hmem'
    have hsame : readDocument w' path = readDocument w path := by
      rw [readDocument, readDocument, hread]
    rw [hsame, hd] at hd'
    obtain rfl := Except.ok.inj hd'
    exact ⟨p', hp', hfound'.trans hfound.symm⟩

/-- A file with a directive for one of the two checks that find something in it, beside a file with a directive for all
checks, and without that file. -/
theorem findings_addDirectory_beside :
    ∃ (a b : ByteArray) (w w' : Workspace),
      w = ⟨.directory [("a.tf", .file a), ("sub", .directory [("b.tf", .file b)])], "/work", [], []⟩ ∧
      w' = ⟨.directory [("a.tf", .file a)], "/work", [], []⟩ ∧
      Readable w "." [.parse "a.tf", .parse "sub/b.tf"] ∧ Readable w' "." [.parse "a.tf"] ∧
      (∀ c ∈ (Registry.ofSelection ⟨[], none⟩).checks, c.Local) ∧ w'.read "a.tf" = w.read "a.tf" ∧
      ∃ p p', (empty.addDirectory w ".").outcome = .ok p ∧ (empty.addDirectory w' ".").outcome = .ok p' ∧
        (inFile "a.tf" (p.findings (.ofSelection ⟨[], none⟩))).map (·.code) = ["AWS017"] ∧
        inFile "a.tf" (p'.findings (.ofSelection ⟨[], none⟩)) =
          inFile "a.tf" (p.findings (.ofSelection ⟨[], none⟩)) := by
  let a := "resource \"aws_s3_bucket\" \"a\" \x7b\x7d # tfsentinel:ignore:AWS002".toUTF8
  let b := "# tfsentinel:ignore\nresource \"aws_s3_bucket\" \"b\" \x7b\x7d".toUTF8
  let sub : List (String × Node) := [("sub", .directory [("b.tf", .file b)])]
  have hfirst {w : Workspace} (h : (w.read "a.tf").toOption = some a) : w.read "a.tf" = .ok a := by
    cases hw : w.read "a.tf" with
    | error e => rw [hw] at h; cases h
    | ok bytes =>
      rw [hw] at h
      rw [Option.some.inj h]
  have h : Readable ⟨.directory (("a.tf", .file a) :: sub), "/work", [], []⟩ "." [.parse "a.tf", .parse "sub/b.tf"] := by
    have hsources : sourcesIn (.parse ".") (("a.tf", .file a) :: sub) = [.parse "a.tf", .parse "sub/b.tf"] := by
      simp only [sub, sourcesIn]
      decide +kernel
    have hb : WellNamed [("b.tf", .file b)] := .file (by decide) (by decide) .nil
    refine ⟨⟨.file (by decide) (by decide) (.directory (by decide) (by decide) hb .nil), .nil⟩, ?_, ?_⟩
    · exact hsources ▸ listing_of_pairwise (Workspace.find_eq_root (by decide +kernel)) rfl (hsources ▸ by decide +kernel)
    · simp only [List.forall_mem_cons]
      exact ⟨exists_document (by decide +kernel), exists_document (by decide +kernel), by simp⟩
  have h' : Readable ⟨.directory [("a.tf", .file a)], "/work", [], []⟩ "." [.parse "a.tf"] := by
    have hsources : sourcesIn (.parse ".") [("a.tf", .file a)] = [.parse "a.tf"] := by
      simp only [sourcesIn]
      decide +kernel
    refine ⟨⟨.file (by decide) (by decide) .nil, .nil⟩, ?_, ?_⟩
    · exact hsources ▸ listing_of_pairwise (Workspace.find_eq_root (by decide +kernel)) rfl (hsources ▸ by decide +kernel)
    · simp only [List.forall_mem_cons]
      exact ⟨exists_document (by decide +kernel), by simp⟩
  have hr : ∀ c ∈ (Registry.ofSelection ⟨[], none⟩).checks, c.Local := fun c hc =>
    Check.local_builtins c (List.mem_filter.1 hc).1
  have hsame : (⟨.directory [("a.tf", .file a)], "/work", [], []⟩ : Workspace).read "a.tf" =
      (⟨.directory (("a.tf", .file a) :: sub), "/work", [], []⟩ : Workspace).read "a.tf" :=
    (hfirst (by decide +kernel)).trans (hfirst (by decide +kernel)).symm
  obtain ⟨-, p, hp, hfiles⟩ := findings_addDirectory h hr
  obtain ⟨⟨q, hq, hfound⟩, hother⟩ := hfiles (.parse "a.tf") List.mem_cons_self
  obtain ⟨p', hp', hequal⟩ := hother _ "." _ h' List.mem_cons_self hsame
  have hcodes : (q.findings (.ofSelection ⟨[], none⟩)).map (·.code) = ["AWS017"] := by
    have hsome : (empty.addFile ⟨.directory (("a.tf", .file a) :: sub), "/work", [], []⟩
        (Path.parse "a.tf").text).outcome.toOption.map
          (fun q => (q.findings (.ofSelection ⟨[], none⟩)).map (·.code)) = some ["AWS017"] := by decide +kernel
    rw [hq] at hsome
    exact Option.some.inj hsome
  refine ⟨a, b, _, _, rfl, rfl, h, h', hr, hsame, p, p', hp, hp', ?_, hequal⟩
  exact (congrArg (List.map (·.code)) hfound).trans hcodes

end Directories

end Project

end InfraAudit
