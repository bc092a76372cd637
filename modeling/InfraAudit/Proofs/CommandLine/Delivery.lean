import InfraAudit.Proofs.CommandLine.Gate
import InfraAudit.Proofs.Report.Decoration

/-!
# InfraAudit.Proofs.CommandLine.Delivery — what is written to a file

The look of a text report is settled before its destination is known.

* `form_of_text`: a text report has colours if they are wanted and the standard output is a terminal.
* `written_inv`: what a scan writes to a file is the text of its report.
* `plain_written_iff`: so the text in a file is plain if and only if one of the two is not the case.
-/

namespace InfraAudit.CommandLine

open InfraAudit.Files InfraAudit.Config InfraAudit.Report

variable {o : Options} {around : Surroundings} {report : ScanReport} {path : List String} {text : String}

/-! ### The look of a report -/

/-- A report has colours if they are wanted and the standard output is a terminal. -/
theorem form_of_text (hformat : o.format = some .text) (around : Surroundings) (r : Registry) :
    o.form around r = .ok (.text ⟨!o.plain && around.terminal, o.verbose⟩) := by
  rw [Options.form, hformat]

theorem write_inv {form : Form} {w : Workspace} {fs : List Finding} (h : form.write w fs = .ok text) :
    text = form.render w.lines? fs := by
  rw [Form.write] at h
  split at h
  · cases h
  · exact (Except.ok.inj h).symm

theorem plain_text_iff (hformat : o.format = some .text) {r : Registry} {form : Form} {fs : List Finding}
    (hform : o.form around r = .ok form) (hsources : PlainSources around.files.lines? fs) :
    Plain (form.render around.files.lines? fs) ↔ o.plain = true ∨ around.terminal = false := by
  rw [form_of_text hformat] at hform
  obtain rfl := Except.ok.inj hform
  rw [Form.render, TextStyle.plain_render_iff hsources]
  cases o.plain <;> simp

/-! ### Where a report goes -/

/-- What is written to a file is the text of the report, and then nothing is printed. -/
theorem written_inv (h : (o.scan around).written = some (path, text)) :
    ∃ report, (o.report around).outcome = .ok report ∧ text = report.text ∧ (o.scan around).output = "" := by
  unfold Options.scan at h ⊢
  cases hr : (o.report around).outcome with
  | error f =>
    simp only [hr, Outcome.failure] at h
    split at h <;> cases h
  | ok report =>
    simp only [hr] at h ⊢
    refine ⟨report, rfl, ?_⟩
    split at h
    · cases h
    · cases h
    · split at h
      · next htarget =>
        cases h
        exact ⟨rfl, rfl⟩
      · simp only [Outcome.failure] at h
        split at h <;> cases h

theorem written_scan {name : String} (h : (o.report around).outcome = .ok report) (hname : o.output = some name)
    (hne : name ≠ "") (htarget : around.files.target name = .ok path) :
    (o.scan around).written = some (path, report.text) := by
  unfold Options.scan
  simp only [h, hname, htarget]

/-- The text of a report comes from its findings and the files. -/
theorem report_text_inv (h : (o.report around).outcome = .ok report) :
    ∃ (r : Registry) (form : Form), o.form around r = .ok form ∧
      report.text = form.render around.files.lines? report.findings := by
  obtain ⟨-, s, -, hon⟩ := report_eq_ok_iff.1 h
  obtain ⟨ds, form, -, hform, rfl⟩ := reportOn_eq_ok_iff.1 hon
  exact ⟨_, form, hform, rfl⟩

/-- If nothing is left to report, then the report is that on no findings. -/
theorem report_of_clears {s : Selection} {ds : List (String × Hcl.Document)} (hformat : o.format = some .text)
    (hvalues : o.HasValues) (hsettings : (o.settings around.files).outcome = .ok s) (hreads : o.Reads around.files ds)
    (hclears : (o.narrowed s).Clears ds) :
    (o.report around).outcome =
      .ok ⟨[], TextStyle.render ⟨!o.plain && around.terminal, o.verbose⟩ around.files.lines? []⟩ := by
  refine report_eq_ok_iff.2 ⟨hvalues, s, hsettings, reportOn_eq_ok_iff.2 ⟨ds, _, hreads, form_of_text hformat _ _, ?_⟩⟩
  rw [findings_eq_nil_iff.2 hclears]
  rfl

/-- On a terminal, the report on an empty file is written to `out.txt`. -/
theorem written_empty {w : Workspace} {plain : Bool} {o : Options}
    (hw : w = ⟨.directory [("main.tf", .file "".toUTF8)], "/work", [], []⟩)
    (ho : o = ⟨some ".", some .text, some "out.txt", plain, none, [], none, false, false, false, true⟩) :
    (o.report ⟨w, true, ""⟩).outcome = .ok ⟨[], TextStyle.render ⟨!plain, false⟩ w.lines? []⟩ ∧
      (o.scan ⟨w, true, ""⟩).written = some (["out.txt"], TextStyle.render ⟨!plain, false⟩ w.lines? []) := by
  have hfind : (w.find ".").toOption.map List.length = some 0 := by
    rw [hw]
    decide +kernel
  have hl := listing_file (o := o) (by rw [ho]) hfind (by rw [hw]) (by decide +kernel)
  have hsettings : (o.settings w).outcome = .ok everything := by
    rw [hw, ho]
    cases plain <;> exact eq_ok_of_toOption (by decide +kernel)
  have htarget : w.target "out.txt" = .ok ["out.txt"] := by
    rw [hw]
    exact eq_ok_of_toOption (by decide +kernel)
  obtain ⟨ds, hreads, hclears⟩ := exists_reads_file (s := everything) hl (by rw [hw]; decide +kernel)
  have hreport : (o.report ⟨w, true, ""⟩).outcome = .ok ⟨[], TextStyle.render ⟨!plain && true, false⟩ w.lines? []⟩ := by
    subst ho
    exact report_of_clears rfl ⟨List.not_mem_nil, rfl⟩ hsettings hreads hclears
  rw [Bool.and_true] at hreport
  exact ⟨hreport, written_scan hreport (by rw [ho]) (by decide) htarget⟩

/-- If the findings and the lines of their files are plain, then a text report on them is plain if and only if colours
are not wanted or the standard output is no terminal.  This holds of every list of findings, and of what a scan writes
to a file, although nothing is printed then. -/
theorem plain_written_iff (hformat : o.format = some .text) :
    (∀ (r : Registry) (form : Form) (fs : List Finding) (text : String), o.form around r = .ok form →
        PlainSources around.files.lines? fs → form.write around.files fs = .ok text →
        (Plain text ↔ o.plain = true ∨ around.terminal = false)) ∧
      ∀ (path : List String) (text : String), (o.scan around).written = some (path, text) →
        ∃ report, (o.report around).outcome = .ok report ∧ (o.scan around).output = "" ∧
          (PlainSources around.files.lines? report.findings →
            (Plain text ↔ o.plain = true ∨ around.terminal = false)) := by
  refine ⟨fun r form fs text hform hsources hwrite => ?_, fun path text hwritten => ?_⟩
  · rw [write_inv hwrite]
    exact plain_text_iff hformat hform hsources
  · obtain ⟨report, hr, rfl, hout⟩ := written_inv hwritten
    obtain ⟨r, form, hform, htext⟩ := report_text_inv hr
    exact ⟨report, hr, hout, fun hsources => htext ▸ plain_text_iff hformat hform hsources⟩

/-- On a terminal, without colours: the report on a finding is plain, and so is the one that is written to a file. -/
theorem plain_written_iff_plain :
    ∃ (w : Workspace) (o : Options) (f : Finding) (text text' : String),
      w = ⟨.directory [("main.tf", .file "".toUTF8)], "/work", [], []⟩ ∧
      Options.parse .current ["--no-colour", "-o", "out.txt", "."] = .ok o ∧ o.format = some .text ∧
      f.code = "AWS001" ∧ f.range.text = "main.tf:2" ∧
      Form.write (.text ⟨!o.plain && true, o.verbose⟩) w [f] = .ok text ∧ Plain text ∧
      (o.scan ⟨w, true, ""⟩).written = some (["out.txt"], text') ∧ Plain text' := by
  let w : Workspace := ⟨.directory [("main.tf", .file "".toUTF8)], "/work", [], []⟩
  let o : Options := ⟨some ".", some .text, some "out.txt", true, none, [], none, false, false, false, true⟩
  let f : Finding := ⟨"AWS001", "Open", ⟨"main.tf", 2, 2, by decide, by decide, by decide⟩, .warning, "x"⟩
  have hparse : Options.parse .current ["--no-colour", "-o", "out.txt", "."] = .ok o :=
    eq_ok_of_toOption (by decide +kernel)
  obtain ⟨hreport, hwritten⟩ := written_empty (w := w) (o := o) rfl rfl
  let around : Surroundings := ⟨w, true, ""⟩
  have hformat : o.format = some .text := rfl
  obtain ⟨hany, hscan⟩ := @plain_written_iff o around hformat
  have hsources : PlainSources w.lines? [f] := by
    refine List.forall_mem_singleton.2 ⟨⟨by decide, by decide, by decide, by decide⟩, fun lines hlines => ?_⟩
    have hnone : w.lines? f.range.filename = some [] := by decide +kernel
    obtain rfl := Option.some.inj (hnone.symm.trans hlines)
    exact List.forall_mem_nil _
  have hwrite : Form.write (.text ⟨false, false⟩) w [f] =
      .ok (TextStyle.render ⟨false, false⟩ w.lines? [f]) := if_neg (by decide +kernel)
  refine ⟨w, o, f, _, _, rfl, hparse, rfl, rfl, by decide +kernel, hwrite, ?_, hwritten, ?_⟩
  · exact (hany .empty _ [f] _ (form_of_text rfl _ _) hsources hwrite).2 (.inl rfl)
  · obtain ⟨report, hr, -, hplain⟩ := hscan _ _ hwritten
    obtain rfl := Except.ok.inj (hreport.symm.trans hr)
    exact (hplain (List.forall_mem_nil _)).2 (.inl rfl)

/-- On a terminal, with colours: the report in the file has control sequences, and nothing is printed. -/
theorem not_plain_written :
    ∃ (w : Workspace) (words : List String) (text : String),
      w = ⟨.directory [("main.tf", .file "".toUTF8)], "/work", [], []⟩ ∧ words = ["-o", "out.txt", "."] ∧
      (run ⟨w, true, ""⟩ words .current).written = some (["out.txt"], text) ∧
      (run ⟨w, true, ""⟩ words .current).output = "" ∧
      text = "\n\x1b[92mNo problems detected!\x1b[0m\n" ∧ ¬ Plain text := by
  let w : Workspace := ⟨.directory [("main.tf", .file "".toUTF8)], "/work", [], []⟩
  let o : Options := ⟨some ".", some .text, some "out.txt", false, none, [], none, false, false, false, true⟩
  have hparse : Options.parse .current ["-o", "out.txt", "."] = .ok o := eq_ok_of_toOption (by decide +kernel)
  obtain ⟨-, hwritten⟩ := written_empty (w := w) (o := o) rfl rfl
  obtain ⟨_, -, -, hout⟩ := written_inv hwritten
  have hrun : run ⟨w, true, ""⟩ ["-o", "out.txt", "."] .current = o.scan ⟨w, true, ""⟩ := run_eq_scan hparse rfl
  refine ⟨w, _, _, rfl, rfl, hrun ▸ hwritten, hrun ▸ hout, by decide +kernel, ?_⟩
  exact TextStyle.not_plain_render_coloured _ _

end InfraAudit.CommandLine
