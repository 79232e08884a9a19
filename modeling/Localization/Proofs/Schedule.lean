import Localization.Proofs.Outcome
import Mathlib.Logic.Relation

/-!
# Tasks done in any order

A `Job` is a task to be done for an item of a list.  Jobs are started and finished in any order
and any number of them at a time, but each of them once (`Step`).  What is collected from them,
`Collects`, is all results in the order of the items when every job has succeeded, or the
failure of some job.  Whatever the order, all results are those of the tasks done one after the
other (`Reaches.mapM_eq_ok`), and a failure is that of the task for one of the items
(`Reaches.exists_eq_error`).  Every order comes to an end (`wellFounded_step`), and then what
the tasks give one after the other can be collected (`Reaches.collects_mapM`).
-/

namespace Localization.Schedule

universe u v

/-- How far a job has come. -/
inductive Status (ε : Type u) (β : Type v) where
  | waiting
  | running
  | finished (result : Except ε β)

/-- A task to be done for an item. -/
structure Job (ε : Type u) (α β : Type v) where
  item : α
  status : Status ε β

variable {ε : Type u} {α β : Type v}

/-- A waiting job is started, or a running job is finished with the result of its task. -/
inductive Step (task : α → Except ε β) : List (Job ε α β) → List (Job ε α β) → Prop where
  | start (before after : List (Job ε α β)) (a : α) :
      Step task (before ++ ⟨a, .waiting⟩ :: after) (before ++ ⟨a, .running⟩ :: after)
  | finish (before after : List (Job ε α β)) (a : α) :
      Step task (before ++ ⟨a, .running⟩ :: after) (before ++ ⟨a, .finished (task a)⟩ :: after)

/-- The jobs may be met in some order of steps, from where all jobs for the items wait. -/
def Reaches (task : α → Except ε β) (items : List α) (jobs : List (Job ε α β)) : Prop :=
  Relation.ReflTransGen (Step task) (items.map (⟨·, .waiting⟩)) jobs

/-- What can be collected from jobs: all results in order, when each job has succeeded, or any
of the failures that have occurred. -/
inductive Collects (jobs : List (Job ε α β)) : Except ε (List β) → Prop where
  | ok {results : List β}
      (h : List.Forall₂ (fun job b => job.status = .finished (.ok b)) jobs results) :
      Collects jobs (.ok results)
  | error {e : ε} {job : Job ε α β} (hj : job ∈ jobs) (h : job.status = .finished (.error e)) :
      Collects jobs (.error e)

variable {task : α → Except ε β} {items : List α} {jobs jobs' : List (Job ε α β)}

/-! ### What every order of steps keeps -/

/-- The jobs are for the items, in order, and those that are finished have the results of their
tasks. -/
structure Sound (task : α → Except ε β) (items : List α) (jobs : List (Job ε α β)) : Prop where
  items_eq : jobs.map (·.item) = items
  result_eq : ∀ job ∈ jobs, ∀ result, job.status = .finished result → result = task job.item

/-- A job may give way to one for the same item that is not finished with a wrong result. -/
theorem Sound.replace {before after : List (Job ε α β)} {a : α} {status status' : Status ε β}
    (h : Sound task items (before ++ ⟨a, status⟩ :: after))
    (hr : ∀ result, status' = .finished result → result = task a) :
  Sound task items (before ++ ⟨a, status'⟩ :: after)
  where
  items_eq := by
    rw [← h.items_eq, List.map_append, List.map_append]
    rfl
  result_eq := by
    intro job hj
    rw [List.mem_append, List.mem_cons] at hj
    obtain hb | rfl | ha := hj
    · apply h.result_eq job (List.mem_append_left _ hb)
    · apply hr
    · apply h.result_eq job (List.mem_append_right _ (List.mem_cons_of_mem _ ha))

theorem Sound.step (h : Sound task items jobs) (hs : Step task jobs jobs') :
  Sound task items jobs'
  := by
  cases hs with
  | start before after a =>
    apply h.replace
    intro result hr
    cases hr
  | finish before after a =>
    apply h.replace
    intro result hr
    apply (Status.finished.inj hr).symm

theorem Reaches.sound (h : Reaches task items jobs) :
  Sound task items jobs
  := by
  induction h with
  | refl =>
    constructor
    · rw [List.map_map]
      apply List.map_id items
    · intro job hj result hr
      obtain ⟨a, -, rfl⟩ := List.mem_map.1 hj
      cases hr
  | tail _ hs ih => exact ih.step hs

/-- Tasks that agree on the items are scheduled alike. -/
theorem Reaches.congr {task' : α → Except ε β} (h : Reaches task items jobs)
    (heq : ∀ a ∈ items, task a = task' a) :
  Reaches task' items jobs
  := by
  induction h with
  | refl => exact .refl
  | tail hr hs ih =>
    apply ih.tail
    have hitems := (Reaches.sound hr).items_eq
    cases hs with
    | start before after a => exact .start before after a
    | finish before after a =>
      rw [heq a (by simp [← hitems])]
      exact .finish before after a

/-! ### What is collected -/

/-- All results are those of the tasks done one after the other. -/
theorem Reaches.mapM_eq_ok (h : Reaches task items jobs) {results : List β}
    (hc : Collects jobs (.ok results)) :
  items.mapM task = .ok results
  := by
  cases hc with
  | ok hall =>
    rw [Outcome.mapM_eq_ok_iff, ← h.sound.items_eq, List.forall₂_map_left_iff]
    apply ((List.forall₂_and_left jobs results).2 ⟨h.sound.result_eq, hall⟩).imp
    intro job b hb
    exact (hb.1 _ hb.2).symm

/-- A failure is that of the task for one of the items. -/
theorem Reaches.exists_eq_error (h : Reaches task items jobs) {e : ε}
    (hc : Collects jobs (.error e)) :
  ∃ a ∈ items, task a = .error e
  := by
  cases hc with
  | @error _ job hj he =>
    refine ⟨job.item, ?_, (h.sound.result_eq job hj _ he).symm⟩
    rw [← h.sound.items_eq]
    apply List.mem_map_of_mem hj

/-- Whether all tasks succeed does not depend on the order. -/
theorem Reaches.toOption_eq (h : Reaches task items jobs) {result : Except ε (List β)}
    (hc : Collects jobs result) :
  result.toOption = (items.mapM task).toOption
  := by
  cases result with
  | ok results => rw [h.mapM_eq_ok hc]
  | error e =>
    obtain ⟨a, ha, hea⟩ := h.exists_eq_error hc
    cases hm : items.mapM task with
    | error e' => rfl
    | ok results =>
      obtain ⟨b, hb⟩ := Outcome.exists_eq_ok_of_mapM_eq_ok hm ha
      rw [hb] at hea
      cases hea

/-! ### Ending -/

/-- The number of steps that are left for a job. -/
def Status.remaining : Status ε β → Nat
  | waiting => 2
  | running => 1
  | finished _ => 0

/-- The number of steps that are left. -/
def remaining : List (Job ε α β) → Nat
  | [] => 0
  | job :: jobs => job.status.remaining + remaining jobs

theorem remaining_append (jobs jobs' : List (Job ε α β)) :
  remaining (jobs ++ jobs') = remaining jobs + remaining jobs'
  := by
  induction jobs with
  | nil => rw [List.nil_append, remaining, Nat.zero_add]
  | cons job jobs ih => rw [List.cons_append, remaining, remaining, ih, Nat.add_assoc]

/-- Each step leaves one step less. -/
theorem Step.remaining_eq (h : Step task jobs jobs') :
  remaining jobs = remaining jobs' + 1
  := by
  cases h with
  | start before after a =>
    simp only [remaining_append, remaining, Status.remaining]
    omega
  | finish before after a =>
    simp only [remaining_append, remaining, Status.remaining]
    omega

/-- No order of steps goes on for ever. -/
theorem wellFounded_step (task : α → Except ε β) :
  WellFounded fun jobs' jobs : List (Job ε α β) => Step task jobs jobs'
  := by
  apply Subrelation.wf _ (measure remaining).wf
  intro jobs' jobs h
  change remaining jobs' < remaining jobs
  rw [h.remaining_eq]
  apply Nat.lt_succ_self

/-- When no step is left, all jobs are finished. -/
theorem exists_finished_of_forall_not_step (h : ∀ jobs', ¬ Step task jobs jobs') :
  ∀ job ∈ jobs, ∃ result, job.status = .finished result
  := by
  rintro ⟨a, status⟩ hj
  obtain ⟨before, after, rfl⟩ := List.append_of_mem hj
  cases status with
  | waiting => exact absurd (.start before after a) (h _)
  | running => exact absurd (.finish before after a) (h _)
  | finished result => exact ⟨result, rfl⟩

/-- When no step is left, what the tasks give one after the other can be collected. -/
theorem Reaches.collects_mapM (h : Reaches task items jobs)
    (hs : ∀ jobs', ¬ Step task jobs jobs') :
  Collects jobs (items.mapM task)
  := by
  have hstatus : ∀ job ∈ jobs, job.status = .finished (task job.item) := by
    intro job hj
    obtain ⟨result, hr⟩ := exists_finished_of_forall_not_step hs job hj
    rw [hr, h.sound.result_eq job hj result hr]
  cases hm : items.mapM task with
  | ok results =>
    rw [Outcome.mapM_eq_ok_iff, ← h.sound.items_eq, List.forall₂_map_left_iff] at hm
    apply Collects.ok
    apply ((List.forall₂_and_left jobs results).2 ⟨hstatus, hm⟩).imp
    intro job b hb
    rw [hb.1, hb.2]
  | error e =>
    obtain ⟨a, ha, he⟩ := Outcome.exists_of_mapM_eq_error hm
    rw [← h.sound.items_eq] at ha
    obtain ⟨job, hj, rfl⟩ := List.mem_map.1 ha
    apply Collects.error hj
    rw [hstatus job hj, he]

/-- From wherever the steps have led, they can go on to the end. -/
theorem exists_forall_not_step (task : α → Except ε β) (jobs : List (Job ε α β)) :
  ∃ jobs', Relation.ReflTransGen (Step task) jobs jobs' ∧ ∀ jobs'', ¬ Step task jobs' jobs''
  := by
  induction jobs using (wellFounded_step task).induction with
  | _ jobs ih =>
    by_cases hs : ∃ jobs', Step task jobs jobs'
    · obtain ⟨jobs', hs⟩ := hs
      obtain ⟨last, hlast, hend⟩ := ih jobs' hs
      exact ⟨last, .head hs hlast, hend⟩
    · exact ⟨jobs, .refl, fun jobs' h => hs ⟨jobs', h⟩⟩

end Localization.Schedule
