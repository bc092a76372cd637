import InfraAudit.Proofs.Project.Reading
import Mathlib.Logic.Relation

/-!
# InfraAudit.Proofs.Project.Workers — reading with several workers

The files of a directory may be read by a pool of workers: each worker takes a file that waits, reads it and leaves
what it has read in the place of the file.

* `Pool.Step`: what a worker can do, at any time and in any order.
* `Pool.exists_run`: whatever steps have been made, the pool can go on to its end; `Pool.run_iff`: there it has left in
  each place what its task gives.
* `readsWith_iff`, `addsWith_iff`: with any number of workers the result is the one without.
-/

namespace InfraAudit

/-! ### Pools of workers -/

/-- The place of a task: it waits, a worker is busy with it, or its result is there. -/
inductive Slot (α β : Type)
  | waiting (x : α)
  | busy (x : α)
  | done (y : β)

namespace Slot

variable {α β : Type}

/-- Whether a worker is busy with the task. -/
def isBusy : Slot α β → Bool
  | .busy _ => true
  | _ => false

/-- Whether the task has not been taken. -/
def isWaiting : Slot α β → Bool
  | .waiting _ => true
  | _ => false

/-- The place is that of the given task, and a result that is there is the task's. -/
inductive Fits (f : α → β) : α → Slot α β → Prop
  | waiting (x : α) : Fits f x (.waiting x)
  | busy (x : α) : Fits f x (.busy x)
  | done (x : α) : Fits f x (.done (f x))

end Slot

namespace Pool

variable {α β : Type}

/-- One step of a pool: a worker that is free takes a task, or one that is busy leaves its result. -/
inductive Step (workers : Nat) (f : α → β) : List (Slot α β) → List (Slot α β) → Prop
  | take {before after : List (Slot α β)} {x : α} (hfree : (before ++ after).countP Slot.isBusy < workers) :
      Step workers f (before ++ .waiting x :: after) (before ++ .busy x :: after)
  | finish {before after : List (Slot α β)} {x : α} :
      Step workers f (before ++ .busy x :: after) (before ++ .done (f x) :: after)

/-- How many steps the tasks still need: two if they wait and one if a worker is busy with them. -/
def left (slots : List (Slot α β)) : Nat :=
  2 * slots.countP Slot.isWaiting + slots.countP Slot.isBusy

/-- Any number of steps. -/
abbrev Run (workers : Nat) (f : α → β) : List (Slot α β) → List (Slot α β) → Prop :=
  Relation.ReflTransGen (Step workers f)

section Runs

variable {workers : Nat} {f : α → β} {xs : List α} {ys : List β} {slots slots' : List (Slot α β)}

theorem forall₂_fits_replace {before after : List (Slot α β)} {s s' : Slot α β}
    (hs : ∀ x, Slot.Fits f x s → Slot.Fits f x s') (h : List.Forall₂ (Slot.Fits f) xs (before ++ s :: after)) :
    List.Forall₂ (Slot.Fits f) xs (before ++ s' :: after) := by
  induction before generalizing xs with
  | nil =>
    cases h with
    | cons hx h => exact .cons (hs _ hx) h
  | cons t before ih =>
    cases h with
    | cons hx h => exact .cons hx (ih h)

/-- A step leaves every task in its place. -/
theorem Step.fits (h : Step workers f slots slots') (hs : List.Forall₂ (Slot.Fits f) xs slots) :
    List.Forall₂ (Slot.Fits f) xs slots' := by
  cases h with
  | @take _ _ x =>
    refine forall₂_fits_replace (fun a ha => ?_) hs
    cases ha
    exact .busy x
  | @finish _ _ x =>
    refine forall₂_fits_replace (fun a ha => ?_) hs
    cases ha
    exact .done x

theorem Run.fits (h : Run workers f slots slots') (hs : List.Forall₂ (Slot.Fits f) xs slots) :
    List.Forall₂ (Slot.Fits f) xs slots' := by
  induction h with
  | refl => exact hs
  | tail _ hstep ih => exact hstep.fits ih

/-- Every step leaves fewer to be made. -/
theorem Step.left_lt (h : Step workers f slots slots') : left slots' < left slots := by
  cases h with
  | take _ =>
    simp [left, List.countP_append, List.countP_cons, Slot.isWaiting, Slot.isBusy]
    omega
  | finish => simp [left, List.countP_append, List.countP_cons, Slot.isWaiting, Slot.isBusy]

/-- As long as there are tasks without a result, some worker can make a step. -/
theorem exists_step (hw : 0 < workers) (h : ∃ s ∈ slots, ∀ y, s ≠ .done y) : ∃ slots', Step workers f slots slots' := by
  by_cases hbusy : ∃ x, Slot.busy x ∈ slots
  · obtain ⟨x, hx⟩ := hbusy
    obtain ⟨before, after, rfl⟩ := List.append_of_mem hx
    exact ⟨_, .finish⟩
  · obtain ⟨s, hs, hdone⟩ := h
    cases s with
    | done y => exact absurd rfl (hdone y)
    | busy x => exact absurd ⟨x, hs⟩ hbusy
    | waiting x =>
      obtain ⟨before, after, rfl⟩ := List.append_of_mem hs
      have hnone : (before ++ after).countP Slot.isBusy = 0 := by
        refine List.countP_eq_zero.2 fun s hmem hs => hbusy ?_
        cases s with
        | waiting => cases hs
        | done => cases hs
        | busy y =>
          refine ⟨y, ?_⟩
          rcases List.mem_append.1 hmem with hmem | hmem
          · exact List.mem_append_left _ hmem
          · exact List.mem_append_right _ (List.mem_cons_of_mem _ hmem)
      exact ⟨_, .take (hnone ▸ hw)⟩

theorem fits_waiting (f : α → β) (xs : List α) : List.Forall₂ (Slot.Fits f) xs (xs.map .waiting) := by
  induction xs with
  | nil => exact .nil
  | cons x xs ih => exact .cons (.waiting x) ih

theorem eq_map_of_fits_done (h : List.Forall₂ (Slot.Fits f) xs (ys.map .done)) : ys = xs.map f := by
  induction ys generalizing xs with
  | nil =>
    cases h
    rfl
  | cons y ys ih =>
    cases h with
    | cons hx h =>
      cases hx
      rw [ih h, List.map_cons]

theorem exists_results (h : ∀ s ∈ slots, ∃ y, s = .done y) : ∃ ys : List β, slots = ys.map .done := by
  induction slots with
  | nil => exact ⟨[], rfl⟩
  | cons s slots ih =>
    obtain ⟨⟨y, rfl⟩, hrest⟩ := List.forall_mem_cons.1 h
    obtain ⟨ys, rfl⟩ := ih hrest
    exact ⟨y :: ys, rfl⟩

/-- From everywhere a pool can come to its end. -/
theorem exists_run (hw : 0 < workers) (f : α → β) (slots : List (Slot α β)) :
    ∃ ys : List β, Run workers f slots (ys.map .done) := by
  induction hk : left slots using Nat.strongRecOn generalizing slots with
  | ind k ih =>
    by_cases hdone : ∀ s ∈ slots, ∃ y, s = .done y
    · obtain ⟨ys, rfl⟩ := exists_results hdone
      exact ⟨ys, .refl⟩
    · push Not at hdone
      obtain ⟨slots', hstep⟩ := exists_step (f := f) hw hdone
      obtain ⟨ys, hrun⟩ := ih (left slots') (hk ▸ hstep.left_lt) slots' rfl
      exact ⟨ys, .head hstep hrun⟩

/-- What a pool comes to, in whatever order the steps are made, are the results of the tasks in their places. -/
theorem run_iff (hw : 0 < workers) : Run workers f (xs.map .waiting) (ys.map .done) ↔ ys = xs.map f := by
  have hresults {ys : List β} (h : Run workers f (xs.map .waiting) (ys.map .done)) : ys = xs.map f :=
    eq_map_of_fits_done (Run.fits h (fits_waiting f xs))
  constructor
  · exact hresults
  · rintro rfl
    obtain ⟨ys, hrun⟩ := exists_run hw f (xs.map .waiting)
    exact hresults hrun ▸ hrun

end Runs

end Pool

/-! ### Files -/

namespace Project

open InfraAudit.Files InfraAudit.Hcl

/-- A file with its name. -/
def readNamed (w : Workspace) (path : Path) : Except ReadError (String × Document) :=
  (readDocument w path).outcome.map fun d => (path.text, d)

/-- What comes of reading files, in the order of the list: a pool is used if there is more than one worker and there
are more than ten files. -/
inductive ReadsWith (w : Workspace) (jobs : Nat) (paths : List Path) :
    Except ReadError (List (String × Document)) → Prop
  | alone (h : ¬(1 < jobs ∧ 10 < paths.length)) : ReadsWith w jobs paths (paths.mapM (readNamed w))
  | pool {results : List (Except ReadError (String × Document))} (h : 1 < jobs ∧ 10 < paths.length)
      (run : Pool.Run jobs (readNamed w) (paths.map .waiting) (results.map .done)) :
      ReadsWith w jobs paths (results.mapM id)

/-- What comes of reading the configuration files of a directory. -/
inductive AddsWith (p : Project) (w : Workspace) (name : String) (jobs : Nat) : Except ReadError Project → Prop
  | unlisted {e : ReadError} (h : listing w (Path.parse name) = .error e) : AddsWith p w name jobs (.error e)
  | listed {paths : List Path} {r : Except ReadError (List (String × Document))}
      (h : listing w (Path.parse name) = .ok paths) (hr : ReadsWith w jobs paths r) :
      AddsWith p w name jobs (r.map p.addAll)

section Files

variable {p : Project} {w : Workspace} {name : String} {jobs : Nat} {paths : List Path}

theorem outcome_readAll (w : Workspace) (paths : List Path) :
    (readAll w paths).outcome = paths.mapM (readNamed w) := by
  induction paths with
  | nil => rfl
  | cons path paths ih =>
    rw [readAll, List.mapM_cons, ← ih, readNamed]
    simp only
    cases (readDocument w path).outcome with
    | error e => rfl
    | ok d =>
      simp only
      cases (readAll w paths).outcome <;> rfl

/-- With any number of workers the files give what they give one after the other. -/
theorem readsWith_iff {r : Except ReadError (List (String × Document))} :
    ReadsWith w jobs paths r ↔ r = (readAll w paths).outcome := by
  rw [outcome_readAll]
  constructor
  · intro h
    cases h with
    | alone => rfl
    | pool hjobs run =>
      rw [(Pool.run_iff (Nat.lt_trans Nat.zero_lt_one hjobs.1)).1 run, List.mapM_map]
      rfl
  · rintro rfl
    by_cases hjobs : 1 < jobs ∧ 10 < paths.length
    · have hrun : Pool.Run jobs (readNamed w) (paths.map .waiting) ((paths.map (readNamed w)).map .done) :=
        (Pool.run_iff (Nat.lt_trans Nat.zero_lt_one hjobs.1)).2 rfl
      have hpool := ReadsWith.pool hjobs hrun
      rwa [List.mapM_map] at hpool
    · exact .alone hjobs

theorem addsWith_iff {x : Except ReadError Project} :
    AddsWith p w name jobs x ↔ x = (p.addDirectory w name).outcome := by
  unfold addDirectory
  constructor
  · intro h
    cases h with
    | unlisted h => rw [h]
    | listed h hr => rw [h, readsWith_iff.1 hr]; rfl
  · rintro rfl
    split
    · next e h => exact .unlisted h
    · next paths h => exact .listed h (readsWith_iff.2 rfl)

end Files

end Project

end InfraAudit
