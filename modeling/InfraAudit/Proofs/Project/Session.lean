import InfraAudit.Proofs.Project.Reading

/-!
# InfraAudit.Proofs.Project.Session — requests that fail leave no trace

A session keeps one project over many requests.  What a request does is written here effect by effect: every change of
the project that is made before a failure stays.  That a failure leaves no trace is then a statement about the order
of the effects.

* `Request.perform`: the effects of a request; `exec`: the outcome and the project after them.
* `exec_perform`: a request adds all its documents or changes nothing, as `addSource`, `addFile` and `addDirectory` do.
* `after_requests`: after any requests the project holds the files and the directives of those that succeeded.
-/

namespace InfraAudit

open InfraAudit.Hcl InfraAudit.Files

/-- The index of the directives in some documents. -/
def Ignore.Index.ofDocuments (ds : List (String × Document)) : Ignore.Index :=
  ds.foldl (fun ix x => ix.addComments x.1 x.2.comments) .empty

namespace Project

/-- Effects on a project that may fail: a failure keeps the changes made before it. -/
abbrev Session (α : Type) : Type :=
  ExceptT ReadError (StateM Project) α

namespace Session

variable {α β : Type}

/-- The outcome of effects, and the project after them. -/
def exec (x : Session α) (p : Project) : Except ReadError α × Project :=
  x.run.run p

/-- An outcome without effects. -/
def ofOutcome (x : Except ReadError α) : Session α :=
  ExceptT.mk (pure x)

/-- Keeps a document. -/
def record (filename : String) (d : Document) : Session Unit :=
  modify (·.add filename d)

section Rules

variable {x : Session α} {f : α → Session β} {p q : Project} {a : α} {e : ReadError}

theorem exec_ofOutcome (o : Except ReadError α) : exec (ofOutcome o) p = (o, p) := rfl

theorem exec_record (filename : String) (d : Document) : exec (record filename d) p = (.ok (), p.add filename d) := rfl

theorem exec_bind_of_ok (h : exec x p = (.ok a, q)) : exec (x >>= f) p = exec (f a) q := by
  change (ExceptT.bindCont f (exec x p).1 : StateM Project _) (exec x p).2 = _
  rw [h]
  rfl

theorem exec_bind_of_error (h : exec x p = (.error e, q)) : exec (x >>= f) p = (.error e, q) := by
  change (ExceptT.bindCont f (exec x p).1 : StateM Project _) (exec x p).2 = _
  rw [h]
  rfl

/-- An outcome without effects, and what follows if it is no failure. -/
theorem exec_ofOutcome_bind (o : Except ReadError α) :
    exec (ofOutcome o >>= f) p = match o with
      | .ok a => exec (f a) p
      | .error e => (.error e, p) := by
  cases o with
  | ok a => exact exec_bind_of_ok (exec_ofOutcome _)
  | error e => exact exec_bind_of_error (exec_ofOutcome _)

end Rules

end Session

open Session

/-- What may be asked of a project: to add a text, a file or the files of a directory.  Files may change between
requests, so each comes with the files of its time. -/
inductive Request
  | source (filename text : String)
  | file (w : Workspace) (name : String)
  | directory (w : Workspace) (name : String)

namespace Request

/-- Effect by effect: first all documents are read, one after the other, then all of them are recorded. -/
def perform : Request → Session Unit
  | .source filename text => do
    let d ← ofOutcome ((Document.parse filename text).outcome.mapError (.invalid filename))
    record filename d
  | .file w name => do
    let d ← ofOutcome (readDocument w (Path.parse name)).outcome
    record (Path.parse name).text d
  | .directory w name => do
    let paths ← ofOutcome (listing w (Path.parse name))
    let ds ← paths.mapM fun path => do
      let d ← ofOutcome (readDocument w path).outcome
      return (path.text, d)
    ds.forM fun x => record x.1 x.2

/-- The project with what is asked for, or the failure. -/
def outcome (p : Project) : Request → Except ReadError Project
  | .source filename text => (p.addSource filename text).outcome.mapError (.invalid filename)
  | .file w name => (p.addFile w name).outcome
  | .directory w name => (p.addDirectory w name).outcome

/-- The names of the files that are asked for. -/
def names : Request → List String
  | .source filename _ => [filename]
  | .file _ name => [(Path.parse name).text]
  | .directory w name => ((listing w (Path.parse name)).toOption.getD []).map Path.text

/-- The documents of the files that are asked for, if all of them can be read. -/
def documents : Request → Except ReadError (List (String × Document))
  | .source filename text =>
    ((Document.parse filename text).outcome.mapError (.invalid filename)).map fun d => [(filename, d)]
  | .file w name => (readAll w [Path.parse name]).outcome
  | .directory w name => listing w (Path.parse name) >>= fun paths => (readAll w paths).outcome

/-- Whether all files that are asked for can be read. -/
def succeeds (r : Request) : Bool :=
  r.documents.isOk

/-- The documents that are kept: all or none. -/
def kept (r : Request) : List (String × Document) :=
  r.documents.toOption.getD []

theorem outcome_eq_map (p : Project) (r : Request) : r.outcome p = r.documents.map p.addAll := by
  cases r with
  | source filename text =>
    simp only [outcome, documents, addSource]
    cases (Document.parse filename text).outcome <;> rfl
  | file w name => rfl
  | directory w name => exact addDirectory_outcome_eq p w name

theorem map_fst_documents {r : Request} {ds : List (String × Document)} (h : r.documents = .ok ds) :
    ds.map (·.1) = r.names := by
  cases r with
  | source filename text =>
    rw [documents] at h
    obtain ⟨d, -, rfl⟩ := Document.eq_ok_of_map h
    rfl
  | file w name =>
    rw [documents] at h
    exact (readAll_eq_ok_iff.1 h).map_fst
  | directory w name =>
    rw [documents] at h
    obtain ⟨paths, hl, hds⟩ := Document.eq_ok_of_bind h
    rw [names, hl]
    exact (readAll_eq_ok_iff.1 hds).map_fst

end Request

/-! ### One request -/

section Effects

variable {p : Project}

/-- Reading files changes nothing, wherever it fails. -/
theorem exec_mapM_read (w : Workspace) (paths : List Path) :
    exec (paths.mapM fun path => do
      let d ← ofOutcome (readDocument w path).outcome
      return (path.text, d)) p = ((readAll w paths).outcome, p) := by
  induction paths with
  | nil => rfl
  | cons path paths ih =>
    rw [List.mapM_cons, readAll, bind_assoc, exec_ofOutcome_bind]
    cases (readDocument w path).outcome with
    | error e => rfl
    | ok d =>
      simp only [pure_bind]
      cases hmore : (readAll w paths).outcome with
      | error e => exact exec_bind_of_error (hmore ▸ ih)
      | ok ds => exact exec_bind_of_ok (hmore ▸ ih)

/-- Recording documents does not fail. -/
theorem exec_forM_record (ds : List (String × Document)) :
    exec (ds.forM fun x => record x.1 x.2) p = (.ok (), p.addAll ds) := by
  induction ds generalizing p with
  | nil => rfl
  | cons x ds ih => exact (exec_bind_of_ok (exec_record x.1 x.2)).trans ih

/-- A request adds all its documents, or it fails and changes nothing. -/
theorem exec_perform (r : Request) (p : Project) :
    exec r.perform p = match r.documents with
      | .ok ds => (.ok (), p.addAll ds)
      | .error e => (.error e, p) := by
  cases r with
  | source filename text =>
    rw [Request.perform, exec_ofOutcome_bind, Request.documents]
    cases (Document.parse filename text).outcome <;> rfl
  | file w name =>
    rw [Request.perform, exec_ofOutcome_bind, Request.documents, readAll]
    cases (readDocument w (Path.parse name)).outcome <;> rfl
  | directory w name =>
    rw [Request.perform, exec_ofOutcome_bind, Request.documents]
    cases listing w (Path.parse name) with
    | error e => rfl
    | ok paths =>
      have hread := exec_mapM_read (p := p) w paths
      simp only [bind, Except.bind]
      cases hds : (readAll w paths).outcome with
      | error e => exact exec_bind_of_error (hds ▸ hread)
      | ok ds => exact (exec_bind_of_ok (hds ▸ hread)).trans (exec_forM_record ds)

end Effects

/-! ### Many requests -/

/-- The project after some requests, whichever of them fail. -/
def after (rs : List Request) (p : Project) : Project :=
  rs.foldl (fun p r => (exec r.perform p).2) p

theorem exec_perform_snd (r : Request) (p : Project) : (exec r.perform p).2 = p.addAll r.kept := by
  rw [exec_perform, Request.kept]
  cases r.documents <;> rfl

theorem addAll_append (p : Project) (ds es : List (String × Document)) :
    p.addAll (ds ++ es) = (p.addAll ds).addAll es :=
  List.foldl_append

theorem after_eq_addAll (rs : List Request) (p : Project) : after rs p = p.addAll (rs.flatMap Request.kept) := by
  induction rs generalizing p with
  | nil => rfl
  | cons r rs ih =>
    have hfirst : after (r :: rs) p = after rs (exec r.perform p).2 := rfl
    rw [hfirst, ih, exec_perform_snd, List.flatMap_cons, addAll_append]

theorem map_fst_kept (rs : List Request) :
    (rs.flatMap Request.kept).map (·.1) = (rs.filter Request.succeeds).flatMap Request.names := by
  induction rs with
  | nil => rfl
  | cons r rs ih =>
    rw [List.flatMap_cons, List.map_append, ih, List.filter_cons, Request.succeeds, Request.kept]
    cases hr : r.documents with
    | error e => rfl
    | ok ds =>
      have hnames : ds.map (·.1) = r.names := Request.map_fst_documents hr
      exact congrArg (· ++ (rs.filter Request.succeeds).flatMap Request.names) hnames

/-- After any requests, a request that fails leaves the project as it is, and one that succeeds adds its documents; both
are what adding the text, the file or the directory gives.  The files of the project are those of the requests that
succeeded, in order, and its index is that of their comments alone, so a finding is suppressed if one of them covers
it. -/
theorem after_requests (rs : List Request) :
    (∀ r : Request,
      r.outcome (after rs empty) = r.documents.map (after rs empty).addAll ∧
      exec r.perform (after rs empty) = match r.outcome (after rs empty) with
        | .ok q => (.ok (), q)
        | .error e => (.error e, after rs empty)) ∧
      (after rs empty).files = (rs.filter Request.succeeds).flatMap Request.names ∧
      (after rs empty).ignores = .ofDocuments (rs.flatMap Request.kept) ∧
      ∀ f, (after rs empty).ignores.suppresses f =
        (rs.flatMap Request.kept).any fun x => x.2.comments.any (Ignore.covers x.1 f) := by
  refine ⟨fun r => ⟨r.outcome_eq_map _, ?_⟩, ?_, ?_, fun f => ?_⟩
  · rw [exec_perform, r.outcome_eq_map]
    cases r.documents <;> rfl
  · rw [after_eq_addAll, files_addAll, map_fst_kept]
    rfl
  · rw [after_eq_addAll, ignores_addAll]
    rfl
  · rw [after_eq_addAll, suppresses_addAll]
    rfl

/-- A block that is not closed, between two texts under one name. -/
example :
    (after [.source "a.tf" "b \x7b\x7d", .source "b.tf" "# tfsentinel:ignore\nb \x7b", .source "a.tf" "# no block"]
      empty).files = ["a.tf", "a.tf"] := by
  decide +kernel

end Project

end InfraAudit
