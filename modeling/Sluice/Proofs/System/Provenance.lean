import Sluice.Proofs.Storage.Schedules
import Sluice.Proofs.System.Frames
import Sluice.System.Trace

/-! Every stored job was asked for by its tenant, and says what the tenant asked for. -/

namespace Sluice

open Relational Transition

variable {env : Nat → Env} {past : List (Step World Action)} {w : World} {a : Action}

/-- The columns that say what a job is, which only its insertion writes. -/
structure Job.SameOrder (row j : Job) : Prop where
  id : row.id = j.id
  tenantID : row.tenantID = j.tenantID
  type : row.type = j.type
  payload : row.payload = j.payload
  priority : row.priority = j.priority
  maxRetries : row.maxRetries = j.maxRetries
  backoffSeconds : row.backoffSeconds = j.backoffSeconds
  idempotencyKey : row.idempotencyKey = j.idempotencyKey
  createdAt : row.createdAt = j.createdAt

namespace Job.SameOrder

theorem refl (row : Job) : row.SameOrder row := ⟨rfl, rfl, rfl, rfl, rfl, rfl, rfl, rfl, rfl⟩

theorem symm {row j : Job} (same : row.SameOrder j) : j.SameOrder row :=
  ⟨same.id.symm, same.tenantID.symm, same.type.symm, same.payload.symm, same.priority.symm,
    same.maxRetries.symm, same.backoffSeconds.symm, same.idempotencyKey.symm, same.createdAt.symm⟩

theorem trans {row j k : Job} (first : row.SameOrder j) (second : j.SameOrder k) :
    row.SameOrder k :=
  ⟨first.id.trans second.id, first.tenantID.trans second.tenantID, first.type.trans second.type,
    first.payload.trans second.payload, first.priority.trans second.priority,
    first.maxRetries.trans second.maxRetries, first.backoffSeconds.trans second.backoffSeconds,
    first.idempotencyKey.trans second.idempotencyKey, first.createdAt.trans second.createdAt⟩

end Job.SameOrder

/-- No call on a stored job writes these columns. -/
theorem RowStep.sameOrder {k : UUID} {op : Op} {old new : Job}
    (step : RowStep k op (some old) (some new)) : new.SameOrder old := by
  cases step <;> exact ⟨rfl, rfl, rfl, rfl, rfl, rfl, rfl, rfl, rfl⟩

/-- The same for a step of the system. -/
theorem World.sameOrder_step {k : UUID} {old new : Job} (before : w.db.jobs.find? k = some old)
    (after : (w.step env a).db.jobs.find? k = some new) : new.SameOrder old := by
  rcases World.step_row env w a k with same | ⟨op, -, step⟩
  · rw [same, before, Option.some.injEq] at after
    exact after ▸ .refl old
  · rw [before, after] at step
    exact step.sameOrder

/-- The columns of a schedule that only its creation writes. -/
structure Schedule.SameOrder (row sched : Schedule) : Prop where
  id : row.id = sched.id
  tenantID : row.tenantID = sched.tenantID
  name : row.name = sched.name
  cron : row.cron = sched.cron
  timezone : row.timezone = sched.timezone
  jobTemplate : row.jobTemplate = sched.jobTemplate

/-- A schedule was created as it stands, by a request that was accepted. -/
def Created (past : List (Step World Action)) (row : Schedule) : Prop :=
  ∃ e ∈ past, ∃ sched, e.label = .createSchedule sched ∧
    (insertSchedule sched e.pre.db).1.isOk = true ∧ row.SameOrder sched.inserted

/--
A job was asked for as it stands.

It was submitted and accepted, or it was fired and stored for a schedule that had been created by
then.
-/
inductive Asked (env : Nat → Env) (past : List (Step World Action)) (row : Job) : Prop where
  | submitted {e : Step World Action} {thread : Nat} {tenantID : UUID} {req : SubmitJobRequest}
      {clock : Time} (listed : e ∈ past)
      (label : e.label = .submit thread tenantID req row.id clock)
      (accepted : (insertJob (submittedJob tenantID req row.id clock) e.pre.db).1.isOk = true)
      (order : row.SameOrder (submittedJob tenantID req row.id clock).inserted)
  | fired {earlier later : List (Step World Action)} {e : Step World Action} {thread : Nat}
      {clock nextRunAt : Time} {sched : Schedule} {j : Job} {rest : List Task}
      (place : past = earlier ++ e :: later) (created : Created earlier sched)
      (label : e.label = .exec thread row.id clock)
      (head : e.pre.threads thread = .fire sched :: rest)
      (fired : fireSchedule (env thread) sched row.id clock = some (j, nextRunAt))
      (accepted : (insertJob j e.pre.db).1.isOk = true)
      (order : row.SameOrder j.inserted)

/-- A creation stays in the history. -/
theorem Created.snoc {row : Schedule} (created : Created past row) (e : Step World Action) :
    Created (past ++ [e]) row := by
  obtain ⟨x, listed, made⟩ := created
  exact ⟨x, List.mem_append_left _ listed, made⟩

/-- So does a request for a job. -/
theorem Asked.snoc {row : Job} (asked : Asked env past row) (e : Step World Action) :
    Asked env (past ++ [e]) row := by
  cases asked with
  | submitted listed label accepted order =>
    exact .submitted (List.mem_append_left _ listed) label accepted order
  | @fired earlier later step _ _ _ _ _ _ place created label head fired accepted order =>
    have longer : past ++ [e] = earlier ++ step :: (later ++ [e]) := by
      rw [place, List.append_assoc, List.cons_append]
    exact .fired longer created label head fired accepted order

/-- A row that says the same was asked for by the same request. -/
theorem Asked.of_sameOrder {old row : Job} (asked : Asked env past old) (same : row.SameOrder old) :
    Asked env past row := by
  cases asked with
  | submitted listed label accepted order =>
    rw [← same.id] at label accepted order
    exact .submitted listed label accepted (same.trans order)
  | fired place created label head fired accepted order =>
    rw [← same.id] at label fired
    exact .fired place created label head fired accepted (same.trans order)

/-- Everything that is stored or about to fire was asked for. -/
structure Provenance (env : Nat → Env) (past : List (Step World Action)) (w : World) : Prop where
  jobs : ∀ k row, w.db.jobs.find? k = some row → Asked env past row
  schedules : ∀ k row, w.db.schedules.find? k = some row → Created past row
  tasks : ∀ thread sched, Task.fire sched ∈ w.threads thread → Created past sched

namespace Provenance

/-- A job that appears is one that was submitted or fired in this step. -/
theorem jobs_step (proven : Provenance env past w) (k : UUID) (row : Job)
    (stored : (w.step env a).db.jobs.find? k = some row) :
    Asked env (past ++ [⟨w, a, w.step env a⟩]) row := by
  cases before : w.db.jobs.find? k with
  | some old =>
    have asked := (proven.jobs k old before).snoc ⟨w, a, w.step env a⟩
    exact asked.of_sameOrder (World.sameOrder_step before stored)
  | none =>
    rcases World.step_row env w a k with same | ⟨op, called, step⟩
    · rw [same, before] at stored
      cases stored
    · have after := stored
      rw [World.step_db_some called] at after
      rw [before, stored] at step
      cases step with
      | @insert j named =>
        have accepted := insertJob_isOk before after
        cases Action.makes called with
        | submit =>
          exact .submitted (List.mem_append_right _ List.mem_cons_self) rfl accepted (.refl _)
        | @fire thread id clock next sched rest _ head fired =>
          -- The schedule was in the hands of its thread.
          have created := proven.tasks thread sched (head ▸ List.mem_cons_self)
          have drawn : j.inserted.id = id := by
            obtain ⟨_, template, -, rfl, -⟩ := fireSchedule_inv fired
            rfl
          exact .fired rfl created (by rw [drawn]) head (by rw [drawn]; exact fired) accepted
            (.refl _)

/-- A schedule that appears is one that was created in this step. -/
theorem schedules_step (proven : Provenance env past w) (k : UUID) (row : Schedule)
    (stored : (w.step env a).db.schedules.find? k = some row) :
    Created (past ++ [⟨w, a, w.step env a⟩]) row := by
  cases called : a.op env w with
  | none =>
    rw [World.step_db_none called] at stored
    exact (proven.schedules k row stored).snoc _
  | some op =>
    rw [World.step_db_some called] at stored
    have step := apply_schedule op w.db k
    rw [stored] at step
    generalize before : w.db.schedules.find? k = old at step
    cases step with
    | keep => exact (proven.schedules k row before).snoc _
    | @insert sched named =>
      have accepted := insertSchedule_isOk before stored
      cases Action.makes called with
      | createSchedule =>
        exact ⟨_, List.mem_append_right _ List.mem_cons_self, sched, rfl, accepted,
          rfl, rfl, rfl, rfl, rfl, rfl⟩
    | update =>
      -- The update after a firing only moves the times.
      obtain ⟨e, listed, sched, label, accepted, same⟩ := proven.schedules k _ before
      exact ⟨e, List.mem_append_left _ listed, sched, label, accepted, same.id, same.tenantID,
        same.name, same.cron, same.timezone, same.jobTemplate⟩

/-- A schedule that a thread takes in hand is stored. -/
theorem tasks_step (proven : Provenance env past w) (enabled : a.Enabled w) (thread : Nat)
    (sched : Schedule) (listed : Task.fire sched ∈ (w.step env a).threads thread) :
    Created (past ++ [⟨w, a, w.step env a⟩]) sched := by
  cases World.assigned listed with
  | kept old => exact (proven.tasks thread sched old).snoc _
  | @polled _ scan _ _ _ _ made => cases scan <;> cases made
  | due expanded member =>
    subst expanded
    have stored := (enabled.2.sound member).1
    exact (proven.schedules _ sched (Table.mem_rows_iff.mp stored)).snoc _

/-- It holds throughout every run. -/
theorem of_run {start : Time} (run : Run (Next env) (World.init start) past w) :
    Provenance env past w := by
  refine run.history (Provenance env) ⟨?_, ?_, ?_⟩ ?_
  · intro k row found
    cases found
  · intro k row found
    cases found
  · intro thread sched listed
    cases listed
  · rintro past w a w' - proven ⟨enabled, rfl⟩
    exact ⟨proven.jobs_step, proven.schedules_step, proven.tasks_step enabled⟩

end Provenance

/--
Every stored job was asked for, by a submission that was accepted or by a firing of a schedule whose
creation was accepted, and still says what was asked for.
-/
theorem jobs_asked_for (run : Reaches env past w) {row : Job} (stored : row ∈ w.db.jobs.rows) :
    Asked env past row := by
  obtain ⟨start, run⟩ := run
  exact (Provenance.of_run run).jobs row.id row (Table.mem_rows_iff.mp stored)

/-- A job is submitted, claimed, and put back after a failure. -/
def putBack : List Action :=
  [.submit 0 7 .hook 1 0, .tryClaim 1 "w" 21 (60 * second) 11 0,
    .markRunning ⟨1, 21, 11⟩, .failJob ⟨1, 21, 11⟩ "boom" (some second) 0]

theorem jobs_asked_for_put_back :
    ∃ row ∈ (afterActions (fun _ => .everyMinute) 0 putBack).db.jobs.rows, row.state = .failed ∧
      Asked (fun _ => .everyMinute) (worldTrace (fun _ => .everyMinute) 0 putBack) row := by
  have run := reaches_worldTrace (fun _ => .everyMinute) 0 putBack (by decide +kernel)
  have found : (afterActions (fun _ => .everyMinute) 0 putBack).db.jobs.rows.any
      (fun row => row.state == .failed) = true := by decide +kernel
  obtain ⟨row, stored, failed⟩ := List.any_eq_true.mp found
  exact ⟨row, stored, eq_of_beq failed, jobs_asked_for run stored⟩

end Sluice
