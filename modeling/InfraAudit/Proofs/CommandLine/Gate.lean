import InfraAudit.Proofs.Check.Pointing
import InfraAudit.Proofs.CommandLine.Editions
import InfraAudit.Proofs.Project.Independence

/-!
# InfraAudit.Proofs.CommandLine.Gate — what the exit status says

* `Selection.Clears`: nothing is left to report; `findings_eq_nil_iff`: then the scan finds nothing.
* `narrowed`: the settings with what the options add.
* `report_eq_ok_iff`: a report takes settings, documents and a form, each of which can fail.
* `status_scan_eq_zero_iff`: the status is 0 if there is a report, it can be written, and it is clean.
* `status_run`: what the status says of settings, files, findings and the place of the report; a run whose settings or
  files cannot be read leaves nothing behind.
-/

namespace InfraAudit

open InfraAudit.Hcl InfraAudit.Files InfraAudit.Config InfraAudit.Report

/-! ### Nothing to report -/

/-- Nothing is left to report: each finding of a check that the selection keeps is covered by a directive in one of
the files. -/
def Selection.Clears (s : Selection) (ds : List (String × Document)) : Prop :=
  ∀ x ∈ ds, ∀ place ∈ sites x.2.blocks, ∀ c ∈ builtins, s.keeps c = true → ∀ f ∈ (c.apply place).found,
    ∃ y ∈ ds, ∃ comment ∈ y.2.comments, Ignore.covers y.1 f comment = true

instance (s : Selection) (ds : List (String × Document)) : Decidable (s.Clears ds) := by
  delta Selection.Clears
  infer_instance

theorem findings_eq_nil_iff {s : Selection} {ds : List (String × Document)} :
    (Project.empty.addAll ds).findings (.ofSelection s) = [] ↔ s.Clears ds := by
  have hsites : sites (Project.empty.addAll ds).blocks = ds.flatMap fun x => sites x.2.blocks := by
    rw [Project.blocks_addAll, sites_append, sites_flatMap]
    rfl
  have hshown (f : Finding) : Scan.shown (some (Project.empty.addAll ds).ignores) f = false ↔
      ∃ y ∈ ds, ∃ comment ∈ y.2.comments, Ignore.covers y.1 f comment = true := by
    have hnone : Project.empty.ignores.suppresses f = false := rfl
    rw [Scan.shown, Option.any_some, Bool.not_eq_false', Project.suppresses_addAll, hnone, Bool.false_or]
    simp only [List.any_eq_true]
  rw [Project.findings, scan_eq, hsites]
  constructor
  · intro h x hx place hplace c hc hkeeps f hf
    refine (hshown f).1 (Bool.eq_false_iff.2 (List.filter_eq_nil_iff.1 h f ?_))
    have hkept : f ∈ (c.apply place).kept := by rwa [Check.kept_of_mem_builtins hc]
    refine List.mem_flatMap.2 ⟨c, List.mem_filter.2 ⟨hc, hkeeps⟩, Scan.mem_findings.2 ⟨place, ?_, hkept⟩⟩
    exact List.mem_flatMap.2 ⟨x, hx, hplace⟩
  · intro h
    refine List.filter_eq_nil_iff.2 fun f hf => Bool.eq_false_iff.1 ((hshown f).2 ?_)
    obtain ⟨c, hc, hf⟩ := List.mem_flatMap.1 hf
    obtain ⟨place, hplace, hf⟩ := Scan.mem_findings.1 hf
    obtain ⟨x, hx, hplace⟩ := List.mem_flatMap.1 hplace
    obtain ⟨hc, hkeeps⟩ := List.mem_filter.1 hc
    rw [Check.kept_of_mem_builtins hc] at hf
    exact h x hx place hplace c hc hkeeps f hf

namespace CommandLine

/-! ### What a report takes -/

/-- The settings with what the command line adds: the codes of all its options, and its own least severity. -/
def Options.narrowed (o : Options) (s : Selection) : Selection :=
  ⟨((o.exclude.filterMap id).flatMap splitCodes).foldl addCode s.exclude, o.minimum.or s.minimum⟩

/-- The documents of the files of the directory, all of which can be read. -/
def Options.Reads (o : Options) (w : Workspace) (ds : List (String × Document)) : Prop :=
  ∃ paths, Project.listing w (Path.parse (o.place w)) = .ok paths ∧ Project.Reads w paths ds

/-- The report is printed, or its file can be written. -/
def Options.Writable (o : Options) (w : Workspace) : Prop :=
  ∀ name, o.output = some name → name ≠ "" → ∃ path, w.target name = .ok path

variable {o : Options} {around : Surroundings} {s t : Selection} {f : RunFailure} {report : ScanReport}

theorem foldl_merge (values : List String) (s : Selection) :
    values.foldl (fun s codes => merge s (splitCodes codes)) s =
      ⟨(values.flatMap splitCodes).foldl addCode s.exclude, s.minimum⟩ := by
  induction values generalizing s with
  | nil => rfl
  | cons v values ih => rw [List.foldl_cons, ih, List.flatMap_cons, List.foldl_append, merge]

theorem selection_eq_ok_iff : o.selection s = .ok t ↔ o.HasValues ∧ t = o.narrowed s := by
  unfold Options.selection Options.HasValues
  by_cases hexclude : none ∈ o.exclude
  · simp [hexclude]
  cases hjobs : o.jobs with
  | false => simp [hexclude]
  | true =>
    simp only [List.contains_iff_mem, hexclude, foldl_merge, Options.narrowed]
    simp [eq_comm]

theorem exists_form_iff (r : Registry) : (∃ form, o.form around r = .ok form) ↔ o.format ≠ none := by
  unfold Options.form
  cases o.format with
  | none => simp
  | some f => cases f <;> simp

/-- A report on a selection takes documents and a form. -/
theorem reportOn_eq_ok_iff :
    (o.reportOn around t).outcome = .ok report ↔
      ∃ ds form, o.Reads around.files ds ∧ o.form around (.ofSelection t) = .ok form ∧
        report = ⟨(Project.empty.addAll ds).findings (.ofSelection t),
          form.render around.files.lines? ((Project.empty.addAll ds).findings (.ofSelection t))⟩ := by
  unfold Options.reportOn
  simp only
  split
  · next e he =>
    constructor
    · exact fun h => nomatch h
    · rintro ⟨ds, form, ⟨paths, hl, hds⟩, -, -⟩
      rw [Project.addDirectory_outcome.2 ⟨paths, ds, hl, hds, rfl⟩] at he
      cases he
  · next p hp =>
    constructor
    · intro h
      obtain ⟨paths, ds, hl, hds, rfl⟩ := Project.addDirectory_outcome.1 hp
      obtain ⟨form, hform, rfl⟩ := Document.eq_ok_of_map h
      exact ⟨ds, form, ⟨paths, hl, hds⟩, hform, rfl⟩
    · rintro ⟨ds, form, ⟨paths, hl, hds⟩, hform, rfl⟩
      rw [Project.addDirectory_outcome.2 ⟨paths, ds, hl, hds, rfl⟩] at hp
      obtain rfl := Except.ok.inj hp
      rw [hform]
      rfl

/-- A report takes options with values and settings, and then what it takes with these. -/
theorem report_eq_ok_iff :
    (o.report around).outcome = .ok report ↔
      o.HasValues ∧ ∃ s, (o.settings around.files).outcome = .ok s ∧
        (o.reportOn around (o.narrowed s)).outcome = .ok report := by
  unfold Options.report
  simp only
  cases hs : (o.settings around.files).outcome with
  | error e => simp [Except.mapError, bind, Except.bind]
  | ok s =>
    simp only [Except.mapError, bind, Except.bind]
    cases ht : o.selection s with
    | error e =>
      have hnot : ¬ o.HasValues := fun h => by
        rw [selection_eq_ok_iff.2 ⟨h, rfl⟩] at ht
        cases ht
      simp [hnot]
    | ok t =>
      obtain ⟨hvalues, rfl⟩ := selection_eq_ok_iff.1 ht
      simp [hvalues]

/-! ### How a scan ends -/

theorem scan_of_error (hdebug : o.debug = false) (h : (o.report around).outcome = .error f) :
    (o.scan around).ending = .failed f ∧ (o.scan around).output = "" ∧ (o.scan around).written = none := by
  unfold Options.scan
  simp [h, Outcome.failure, hdebug]

theorem ending_of_writable (h : (o.report around).outcome = .ok report) (hw : o.Writable around.files) :
    (o.scan around).ending = .reported (o.format ≠ some .text || report.findings.isEmpty) := by
  unfold Options.scan
  simp only [h]
  split
  · rfl
  · rfl
  · next name hne hname =>
    obtain ⟨path, hpath⟩ := hw name hname hne
    rw [hpath]

theorem not_writable_inv {w : Workspace} (h : ¬ o.Writable w) :
    ∃ name e, o.output = some name ∧ name ≠ "" ∧ w.target name = .error e := by
  unfold Options.Writable at h
  push Not at h
  obtain ⟨name, hname, hne, htarget⟩ := h
  cases he : w.target name with
  | error e => exact ⟨name, e, hname, hne, he⟩
  | ok path => exact absurd he (htarget path)

theorem ending_of_not_writable (hdebug : o.debug = false) (h : (o.report around).outcome = .ok report)
    (hw : ¬ o.Writable around.files) : ∃ f, (o.scan around).ending = .failed f := by
  obtain ⟨name, e, hname, hne, he⟩ := not_writable_inv hw
  refine ⟨.output name e, ?_⟩
  unfold Options.scan
  simp only [h, hname]
  simp [he, Outcome.failure, hdebug]

theorem status_reported (clean : Bool) : (Ending.reported clean).status = 0 ↔ clean = true := by
  cases clean <;> simp [Ending.status]

theorem status_scan (around : Surroundings) (hdebug : o.debug = false) :
    (o.scan around).ending.status = 0 ∨ (o.scan around).ending.status = 1 := by
  cases hr : (o.report around).outcome with
  | error f =>
    obtain ⟨hending, -, -⟩ := scan_of_error hdebug hr
    exact .inr (by rw [hending]; rfl)
  | ok report =>
    by_cases hw : o.Writable around.files
    · rw [ending_of_writable hr hw]
      show (if _ then 0 else 1) = 0 ∨ (if _ then 0 else 1) = 1
      split
      · exact .inl rfl
      · exact .inr rfl
    · obtain ⟨f, hending⟩ := ending_of_not_writable hdebug hr hw
      exact .inr (by rw [hending]; rfl)

/-- The status is 0 if there is a report, it can be written, and it is clean if it is for a reader. -/
theorem status_scan_eq_zero_iff (hdebug : o.debug = false) :
    (o.scan around).ending.status = 0 ↔
      ∃ report, (o.report around).outcome = .ok report ∧ o.Writable around.files ∧
        (o.format = some .text → report.findings = []) := by
  cases hr : (o.report around).outcome with
  | error f =>
    obtain ⟨hending, -, -⟩ := scan_of_error hdebug hr
    rw [hending]
    simp [Ending.status]
  | ok report =>
    by_cases hw : o.Writable around.files
    · rw [ending_of_writable hr hw, status_reported]
      by_cases htext : o.format = some .text
      · simp [hw, htext]
      · simp [hw, htext]
    · obtain ⟨f, hending⟩ := ending_of_not_writable hdebug hr hw
      rw [hending]
      simp [Ending.status, hw]

/-- The settings, the directory or one of its files cannot be read. -/
def Options.Fails (o : Options) (w : Workspace) : Prop :=
  (∃ e, (o.settings w).outcome = .error e) ∨
    (∃ e, Project.listing w (Path.parse (o.place w)) = .error e) ∨
      ∃ paths, Project.listing w (Path.parse (o.place w)) = .ok paths ∧
        ∃ path ∈ paths, ∃ e, (Project.readDocument w path).outcome = .error e

theorem exists_error_of_fails (h : o.Fails around.files) : ∃ f, (o.report around).outcome = .error f := by
  cases hr : (o.report around).outcome with
  | error f => exact ⟨f, rfl⟩
  | ok report =>
    obtain ⟨-, s, hs, hon⟩ := report_eq_ok_iff.1 hr
    obtain ⟨ds, form, ⟨paths, hl, hds⟩, -, -⟩ := reportOn_eq_ok_iff.1 hon
    rcases h with ⟨e, he⟩ | ⟨e, he⟩ | ⟨paths', hl', path, hpath, e, he⟩
    · rw [hs] at he
      cases he
    · rw [hl] at he
      cases he
    · rw [hl] at hl'
      obtain rfl := Except.ok.inj hl'
      obtain ⟨d, hd, -⟩ := hds.exists_mem hpath
      rw [hd] at he
      cases he

/-- There is a report with given findings if options, settings and files can be read. -/
theorem exists_report_iff (around : Surroundings) {q : List Finding → Prop} (hformat : o.format ≠ none) :
    (∃ report, (o.report around).outcome = .ok report ∧ q report.findings) ↔
      o.HasValues ∧ ∃ s ds, (o.settings around.files).outcome = .ok s ∧ o.Reads around.files ds ∧
        q ((Project.empty.addAll ds).findings (.ofSelection (o.narrowed s))) := by
  constructor
  · rintro ⟨report, hr, hq⟩
    obtain ⟨hvalues, s, hs, hon⟩ := report_eq_ok_iff.1 hr
    obtain ⟨ds, form, hds, -, rfl⟩ := reportOn_eq_ok_iff.1 hon
    exact ⟨hvalues, s, ds, hs, hds, hq⟩
  · rintro ⟨hvalues, s, ds, hs, hds, hq⟩
    obtain ⟨form, hform⟩ : ∃ form, o.form around (.ofSelection (o.narrowed s)) = .ok form :=
      (exists_form_iff _).2 hformat
    have hon := reportOn_eq_ok_iff.2 ⟨ds, form, hds, hform, rfl⟩
    exact ⟨_, report_eq_ok_iff.2 ⟨hvalues, s, hs, hon⟩, hq⟩

theorem status_scan_text (hdebug : o.debug = false) (hformat : o.format = some .text) :
    (o.scan around).ending.status = 0 ↔
      o.HasValues ∧ (∃ s ds, (o.settings around.files).outcome = .ok s ∧ o.Reads around.files ds ∧
        (o.narrowed s).Clears ds) ∧ o.Writable around.files := by
  have hclean := exists_report_iff around (o := o) (q := (· = [])) (by simp [hformat])
  rw [status_scan_eq_zero_iff hdebug]
  constructor
  · rintro ⟨report, hr, hw, hnone⟩
    obtain ⟨hvalues, s, ds, hs, hds, hnil⟩ := hclean.1 ⟨report, hr, hnone hformat⟩
    exact ⟨hvalues, ⟨s, ds, hs, hds, findings_eq_nil_iff.1 hnil⟩, hw⟩
  · rintro ⟨hvalues, ⟨s, ds, hs, hds, hclears⟩, hw⟩
    obtain ⟨report, hr, hnil⟩ := hclean.2 ⟨hvalues, s, ds, hs, hds, findings_eq_nil_iff.2 hclears⟩
    exact ⟨report, hr, hw, fun _ => hnil⟩

theorem status_scan_data (hdebug : o.debug = false) (hformat : o.format = some .json ∨ o.format = some .sarif) :
    (o.scan around).ending.status = 0 ↔
      o.HasValues ∧ (∃ s, (o.settings around.files).outcome = .ok s) ∧ (∃ ds, o.Reads around.files ds) ∧
        o.Writable around.files := by
  have htext : o.format ≠ some .text := by rcases hformat with h | h <;> simp [h]
  have hany := exists_report_iff around (o := o) (q := fun _ => True)
    (by rcases hformat with h | h <;> simp [h])
  rw [status_scan_eq_zero_iff hdebug]
  constructor
  · rintro ⟨report, hr, hw, -⟩
    obtain ⟨hvalues, s, ds, hs, hds, -⟩ := hany.1 ⟨report, hr, trivial⟩
    exact ⟨hvalues, ⟨s, hs⟩, ⟨ds, hds⟩, hw⟩
  · rintro ⟨hvalues, ⟨s, hs⟩, ⟨ds, hds⟩, hw⟩
    obtain ⟨report, hr, -⟩ := hany.2 ⟨hvalues, s, ds, hs, hds, trivial⟩
    exact ⟨report, hr, hw, fun h => absurd h htext⟩

/-! ### Command lines -/

theorem run_eq_scan {e : Edition} {words : List String} (hparse : Options.parse e words = .ok o)
    (hlist : o.listChecks = false) : run around words e = o.scan around := by
  rw [run, hparse]
  simp [hlist]

section File

variable {w : Workspace} {name : String} {bytes : ByteArray}

/-- The configuration files of the current directory, if there is one in the root. -/
theorem listing_file (hdirectory : o.directory = some ".") (hfind : (w.find ".").toOption.map List.length = some 0)
    (hroot : w.root = .directory [(name, .file bytes)]) (hname : isSourceName name = true) :
    Project.listing w (Path.parse (o.place w)) = .ok [(Path.parse ".").child name] := by
  have hplace : Path.parse (o.place w) = Path.parse "." := by
    rw [Options.place, hdirectory]
    show Path.parse (Path.parse ".").text = Path.parse "."
    decide +kernel
  have hsources : sourcesIn (Path.parse ".") [(name, .file bytes)] = [(Path.parse ".").child name] := by
    simp [sourcesIn, hname]
  have hdot : (Path.parse ".").text = "." := by decide +kernel
  have hnode : w.nodeAt [] = .directory [(name, .file bytes)] := hroot
  rw [hplace, ← hsources]
  exact Project.listing_of_pairwise (hdot ▸ Workspace.find_eq_root hfind) hnode (hsources ▸ List.pairwise_singleton _ _)

theorem exists_reads_file (hl : Project.listing w (Path.parse (o.place w)) = .ok [(Path.parse ".").child name])
    (h : (Project.readDocument w ((Path.parse ".").child name)).outcome.toOption.map
      (fun d => decide (s.Clears [(((Path.parse ".").child name).text, d)])) = some true) :
    ∃ ds, o.Reads w ds ∧ s.Clears ds := by
  obtain ⟨_, d, hd, hclears⟩ := Logged.ok_of_map (g := fun _ d => decide (s.Clears [(_, d)])) h
  exact ⟨_, ⟨_, hl, .cons ⟨rfl, congrArg Logged.outcome hd⟩ .nil⟩, of_decide_eq_true hclears⟩

end File

/-- A scan ends with the status 0 if and only if the settings and all files can be read, the report can be written and,
in a text report, no finding is left; else with the status 1.  If the settings, the directory or a file cannot be read,
it prints and writes nothing. -/
theorem status_run (around : Surroundings) {words : List String} (hparse : Options.parse .current words = .ok o)
    (hlist : o.listChecks = false) (hdebug : o.debug = false) :
    ((run around words .current).ending.status = 0 ∨ (run around words .current).ending.status = 1) ∧
      (o.format = some .text ∨ o.format = some .json ∨ o.format = some .sarif) ∧
      (o.format = some .text → ((run around words .current).ending.status = 0 ↔
        (∃ s ds, (o.settings around.files).outcome = .ok s ∧ o.Reads around.files ds ∧ (o.narrowed s).Clears ds) ∧
          o.Writable around.files)) ∧
      (o.format = some .json ∨ o.format = some .sarif → ((run around words .current).ending.status = 0 ↔
        (∃ s, (o.settings around.files).outcome = .ok s) ∧ (∃ ds, o.Reads around.files ds) ∧
          o.Writable around.files)) ∧
      (o.Fails around.files → (run around words .current).ending.status = 1 ∧
        (run around words .current).output = "" ∧ (run around words .current).written = none) := by
  obtain ⟨hvalues, hform⟩ := parse_complete hparse
  rw [run_eq_scan hparse hlist]
  refine ⟨status_scan around hdebug, ?_, fun htext => ?_, fun hdata => ?_, fun hfails => ?_⟩
  · obtain ⟨f, hf⟩ := Option.ne_none_iff_exists'.1 hform
    rw [hf]
    cases f <;> simp
  · rw [status_scan_text hdebug htext, and_iff_right hvalues]
  · rw [status_scan_data hdebug hdata, and_iff_right hvalues]
  · obtain ⟨f, hf⟩ := exists_error_of_fails hfails
    obtain ⟨hending, hout, hwritten⟩ := scan_of_error hdebug hf
    exact ⟨by rw [hending]; rfl, hout, hwritten⟩

/-- One of two findings is excluded and the other one suppressed: the report is written and the status is 0.  With a
file that is no configuration the status is 1 and nothing is written. -/
theorem status_run_gate :
    ∃ (good bad : ByteArray) (w w' : Workspace) (words : List String) (o : Options),
      good = "resource \"aws_s3_bucket\" \"a\" \x7b\x7d # tfsentinel:ignore:AWS002".toUTF8 ∧
      bad = "b \x7b".toUTF8 ∧ w = ⟨.directory [("main.tf", .file good)], "/work", [], []⟩ ∧
      w' = ⟨.directory [("main.tf", .file bad)], "/work", [], []⟩ ∧
      words = ["-e", "AWS017", ".", "-o", "out.txt"] ∧ Options.parse .current words = .ok o ∧ o.listChecks = false ∧
      o.debug = false ∧ (run ⟨w, false, ""⟩ words .current).ending.status = 0 ∧
      (run ⟨w', false, ""⟩ words .current).ending.status = 1 ∧ (run ⟨w', false, ""⟩ words .current).output = "" ∧
      (run ⟨w', false, ""⟩ words .current).written = none := by
  let good := "resource \"aws_s3_bucket\" \"a\" \x7b\x7d # tfsentinel:ignore:AWS002".toUTF8
  let bad := "b \x7b".toUTF8
  let w : Workspace := ⟨.directory [("main.tf", .file good)], "/work", [], []⟩
  let w' : Workspace := ⟨.directory [("main.tf", .file bad)], "/work", [], []⟩
  let o : Options :=
    ⟨some ".", some .text, some "out.txt", false, none, [some "AWS017"], none, false, false, false, true⟩
  have hparse : Options.parse .current ["-e", "AWS017", ".", "-o", "out.txt"] = .ok o :=
    eq_ok_of_toOption (by decide +kernel)
  obtain ⟨-, -, htext, -⟩ := status_run ⟨w, false, ""⟩ hparse rfl rfl
  obtain ⟨-, -, -, -, hfails⟩ := status_run ⟨w', false, ""⟩ hparse rfl rfl
  have hgood : (run ⟨w, false, ""⟩ ["-e", "AWS017", ".", "-o", "out.txt"] .current).ending.status = 0 := by
    have hl := listing_file (o := o) (w := w) rfl (by decide +kernel) rfl (by decide +kernel)
    obtain ⟨ds, hreads, hclears⟩ := exists_reads_file (s := o.narrowed everything) hl (by decide +kernel)
    have hsettings : (o.settings w).outcome = .ok everything := eq_ok_of_toOption (by decide +kernel)
    refine (htext rfl).2 ⟨⟨_, ds, hsettings, hreads, hclears⟩, ?_⟩
    intro name hname _
    obtain rfl := Option.some.inj hname
    exact ⟨["out.txt"], eq_ok_of_toOption (by decide +kernel)⟩
  have hbad : o.Fails w' := by
    have hl := listing_file (o := o) (w := w') rfl (by decide +kernel) rfl (by decide +kernel)
    refine .inr (.inr ⟨_, hl, _, List.mem_singleton_self _, ?_⟩)
    cases hd : (Project.readDocument w' ((Path.parse ".").child "main.tf")).outcome with
    | error e => exact ⟨e, rfl⟩
    | ok d =>
      have hno : (Project.readDocument w' ((Path.parse ".").child "main.tf")).outcome.isOk = false := by
        decide +kernel
      rw [hd] at hno
      cases hno
  exact ⟨good, bad, w, w', _, o, rfl, rfl, rfl, rfl, rfl, hparse, rfl, rfl, hgood, hfails hbad⟩

end CommandLine

end InfraAudit
