import Sluice.Proofs.Consistency
import Sluice.Proofs.Storage.Runs
import Sluice.System.World

/-! How a step of the system acts on the tables: through one storage call, or not at all. -/

namespace Sluice

open Relational Transition

variable {env : Nat → Env} {w : World} {a : Action}

/--
Where each storage call comes from.

A thread makes the call of the task at its head, and workers bring the values of their claims.
-/
inductive Makes (env : Nat → Env) (w : World) : Action → Op → Prop where
  | submit {thread : Nat} {tenantID : UUID} {req : SubmitJobRequest} {id : UUID} {clock : Time} :
      Makes env w (.submit thread tenantID req id clock)
        (.insertJob (submittedJob tenantID req id clock))
  | cancelJob {jobID tenantID : UUID} :
      Makes env w (.cancelJob jobID tenantID) (.cancelJob jobID tenantID)
  | replayJob {thread : Nat} {jobID tenantID : UUID} :
      Makes env w (.replayJob thread jobID tenantID) (.replayJob jobID tenantID)
  | createSchedule {sched : Schedule} :
      Makes env w (.createSchedule sched) (.insertSchedule sched)
  | deleteSchedule {id tenantID : UUID} :
      Makes env w (.deleteSchedule id tenantID) (.deleteSchedule id tenantID)
  | cmdForceFail {jobID : UUID} : Makes env w (.cmdForceFail jobID) (.cmdForceFail jobID)
  | tryClaim {jobID : UUID} {workerID : String} {token : UUID} {deadline : Time} {runID : UUID}
      {clock : Time} :
      Makes env w (.tryClaim jobID workerID token deadline runID clock)
        (.tryClaim jobID workerID token deadline runID clock)
  | markRunning {c : Claim} : Makes env w (.markRunning c) (.markRunning c.jobID c.token)
  | extendDeadline {c : Claim} {deadline : Time} :
      Makes env w (.extendDeadline c deadline) (.extendDeadline c.jobID c.token deadline)
  | completeRow {c : Claim} {clock : Time} :
      Makes env w (.completeRow c clock) (.completeRow c.jobID c.token clock)
  | completeRun {c : Claim} {clock : Time} :
      Makes env w (.completeRun c clock) (.completeRun c.runID clock)
  | failJob {c : Claim} {errMsg : String} {nextRunAt : Option Time} {clock : Time} :
      Makes env w (.failJob c errMsg nextRunAt clock)
        (.failJob c.jobID c.runID c.token errMsg nextRunAt clock)
  | promoteScheduled {thread : Nat} {id : UUID} {clock : Time} {j : Job} {rest : List Task}
      (head : w.threads thread = .promoteScheduled j :: rest) :
      Makes env w (.exec thread id clock) (.promoteScheduledToPending j.id)
  | promoteFailed {thread : Nat} {id : UUID} {clock : Time} {j : Job} {rest : List Task}
      (head : w.threads thread = .promoteFailed j :: rest) :
      Makes env w (.exec thread id clock) (.promoteFailedToPending j.id w.now)
  | requeue {thread : Nat} {id : UUID} {clock : Time} {j : Job} {rest : List Task}
      (head : w.threads thread = .requeue j :: rest) :
      Makes env w (.exec thread id clock) (.requeueStaleJob j.id clock w.now)
  | moveToDeadLetter {thread : Nat} {id : UUID} {clock : Time} {j : Job} {rest : List Task}
      (head : w.threads thread = .moveToDeadLetter j :: rest) :
      Makes env w (.exec thread id clock) (.moveToDeadLetter j.id w.now)
  | replay {thread : Nat} {id : UUID} {clock : Time} {j : Job} {rest : List Task}
      (head : w.threads thread = .replay j :: rest) :
      Makes env w (.exec thread id clock) (.cmdReplay j.id)
  | fire {thread : Nat} {id : UUID} {clock nextRunAt : Time} {sched : Schedule} {j : Job}
      {rest : List Task} (head : w.threads thread = .fire sched :: rest)
      (fired : fireSchedule (env thread) sched id clock = some (j, nextRunAt)) :
      Makes env w (.exec thread id clock) (.insertJob j)
  | updateSchedule {thread : Nat} {id sched : UUID} {clock lastRunAt nextRunAt : Time}
      {rest : List Task}
      (head : w.threads thread = .updateSchedule sched lastRunAt nextRunAt :: rest) :
      Makes env w (.exec thread id clock) (.updateScheduleAfterRun sched lastRunAt nextRunAt)

/-- A step's storage call has one of the listed origins. -/
theorem Action.makes {op : Op} (called : a.op env w = some op) : Makes env w a op := by
  -- All actions but `exec` fix their call.
  cases a with
  | exec thread id clock =>
    simp only [Action.op, Option.bind_eq_some_iff] at called
    obtain ⟨task, head, called⟩ := called
    obtain ⟨rest, listed⟩ := List.head?_eq_some_iff.mp head
    -- The task at the head decides which call is made.
    cases task with
    | promoteScheduled j =>
      cases called
      exact .promoteScheduled listed
    | promoteFailed j =>
      cases called
      exact .promoteFailed listed
    | requeue j =>
      cases called
      exact .requeue listed
    | moveToDeadLetter j =>
      cases called
      exact .moveToDeadLetter listed
    | replay j =>
      cases called
      exact .replay listed
    | fire sched =>
      simp only [Task.op, Option.map_eq_some_iff] at called
      obtain ⟨⟨j, nextRunAt⟩, fired, rfl⟩ := called
      exact .fire listed fired
    | updateSchedule sched lastRunAt nextRunAt =>
      cases called
      exact .updateSchedule listed
    | enqueue => cases called
  | tick | cmdReplay | abandon | poll | expandCron | drop | crash | loseRedis => cases called
  | _ =>
    cases called
    constructor

/-- A schedule fires a job that its template describes, and its expression says what follows. -/
theorem fireSchedule_inv {env : Env} {sched : Schedule} {id : UUID} {clock nextRunAt : Time}
    {j : Job} (fired : fireSchedule env sched id clock = some (j, nextRunAt)) :
    ∃ next template, env.parse sched.cron = some next ∧ j = firedJob sched template id clock ∧
      nextRunAt = next env.localZone clock := by
  -- The expression and the template could both be read.
  simp only [fireSchedule, Option.bind_eq_some_iff, Option.map_eq_some_iff] at fired
  obtain ⟨next, parsed, template, -, same⟩ := fired
  exact ⟨next, template, parsed, (congrArg Prod.fst same).symm, (congrArg Prod.snd same).symm⟩

/-- Every storage call of the system is one that some caller can issue. -/
theorem Action.op_issued {op : Op} (called : a.op env w = some op) : op.Issued := by
  cases Action.makes called with
  | submit => exact .submitted _ _ _ _
  | fire _ fired =>
    -- Among the tasks only a firing schedule inserts a job.
    obtain ⟨next, template, -, rfl, -⟩ := fireSchedule_inv fired
    exact .inr ⟨_, template, _, _, rfl⟩
  | _ => trivial

/-- A step without a storage call leaves the database alone. -/
theorem World.step_db_none (silent : a.op env w = none) : (w.step env a).db = w.db := by
  simp only [World.step, silent, Option.elim]

/-- A step with a storage call does to the database what the call does. -/
theorem World.step_db_some {op : Op} (called : a.op env w = some op) :
    (w.step env a).db = op.apply w.db := by
  simp only [World.step, called, Option.elim]

/-- Whatever the calls of all processes make of the tables is a run of storage calls. -/
theorem Reaches.calls {past : List (Step World Action)} (run : Reaches env past w) :
    ∃ calls, Calls calls w.db := by
  -- The storage calls are collected along the run of the system.
  obtain ⟨start, run⟩ := run
  refine run.invariant (fun w => ∃ calls, Calls calls w.db) ⟨[], .nil⟩ ?_
  rintro w a w' ⟨calls, made⟩ ⟨-, rfl⟩
  cases called : a.op env w with
  | none => exact ⟨calls, by rwa [World.step_db_none called]⟩
  | some op => exact ⟨_, made.snoc ⟨Action.op_issued called, World.step_db_some called⟩⟩

/-- A fact about the row of one job that no call undoes is not undone by any step. -/
theorem World.step_row (env : Nat → Env) (w : World) (a : Action) (k : UUID) :
    (w.step env a).db.jobs.find? k = w.db.jobs.find? k ∨
      ∃ op, a.op env w = some op ∧
        RowStep k op (w.db.jobs.find? k) ((w.step env a).db.jobs.find? k) := by
  -- The step makes one storage call or none.
  cases called : a.op env w with
  | none => exact .inl (by rw [World.step_db_none called])
  | some op =>
    rw [World.step_db_some called]
    exact .inr ⟨op, rfl, apply_row op w.db k⟩

/-- Identifiers stay drawn. -/
theorem World.drawn_step {id : UUID} (drawn : id ∈ w.drawn) : id ∈ (w.step env a).drawn :=
  List.mem_append_right _ drawn

/-- Claims stay known. -/
theorem World.claims_step {c : Claim} (known : c ∈ w.claims) : c ∈ (w.step env a).claims := by
  simp only [World.step, Action.claims]
  split
  · split
    · exact List.mem_cons_of_mem _ known
    · exact known
  · exact known

/-- Time does not go back. -/
theorem World.now_step (env : Nat → Env) (enabled : a.Enabled w) : w.now ≤ (w.step env a).now := by
  cases a with
  | tick later => exact enabled
  | _ => exact Int.le_refl _

/-- A step that assigns no work leaves every thread alone. -/
theorem World.threads_none (idle : a.assigns env w = none) (thread : Nat) :
    (w.step env a).threads thread = w.threads thread := by
  simp only [World.step, idle]

/-- A step that assigns work to a thread replaces what that thread had to do. -/
theorem World.threads_some {other : Nat} {tasks : List Task}
    (assigned : a.assigns env w = some (other, tasks)) (thread : Nat) :
    (w.step env a).threads thread = if thread = other then tasks else w.threads thread := by
  simp only [World.step, assigned, Function.update_apply]

/--
How a step changes what one thread has to do.

Requests, commands, and passes give it new work, and otherwise it works its list off.
-/
inductive Assigns (env : Nat → Env) (w : World) : Action → Nat → List Task → Prop where
  | submit {thread : Nat} {tenantID : UUID} {req : SubmitJobRequest} {id : UUID} {clock : Time}
      (j : Job) : Assigns env w (.submit thread tenantID req id clock) thread [.queue j]
  | replayJob {thread : Nat} {jobID tenantID : UUID} (priority : Int16) :
      Assigns env w (.replayJob thread jobID tenantID) thread [.enqueue tenantID jobID priority]
  | cmdReplay {thread : Nat} {jobID : UUID} (j : Job) :
      Assigns env w (.cmdReplay thread jobID) thread [.replay j]
  | poll {thread : Nat} {scan : Scan} {batch : List Job} :
      Assigns env w (.poll thread scan batch) thread (batch.map scan.task)
  | expandCron {thread : Nat} {batch : List Schedule} :
      Assigns env w (.expandCron thread batch) thread (batch.map .fire)
  | exec {thread : Nat} {id : UUID} {clock : Time} {head : Task} {rest : List Task}
      (queued : w.threads thread = head :: rest) :
      Assigns env w (.exec thread id clock) thread
        (head.followUps (env thread) id clock w.now w.db ++ rest)
  | drop {thread : Nat} : Assigns env w (.drop thread) thread (w.threads thread).tail
  | crash {thread : Nat} : Assigns env w (.crash thread) thread []

/-- A step's change to a thread is one of the listed ones. -/
theorem Action.assigns_inv {thread : Nat} {tasks : List Task}
    (assigned : a.assigns env w = some (thread, tasks)) : Assigns env w a thread tasks := by
  -- Requests and commands give work only if their first call went well.
  cases a with
  | submit other tenantID req id clock =>
    simp only [assigns] at assigned
    split at assigned
    · cases assigned
      exact .submit _
    · cases assigned
  | replayJob other jobID tenantID =>
    simp only [assigns] at assigned
    split at assigned
    · cases assigned
      exact .replayJob _
    · cases assigned
  | cmdReplay other jobID =>
    simp only [assigns] at assigned
    split at assigned
    · split at assigned
      · cases assigned
        exact .cmdReplay _
      · cases assigned
    · cases assigned
  | exec other id clock =>
    simp only [assigns] at assigned
    split at assigned
    · rename_i head rest queued
      cases assigned
      exact .exec queued
    · cases assigned
  | poll | expandCron | drop | crash =>
    cases assigned
    constructor
  | _ => cases assigned

/--
Where the task of a thread comes from.

It was there before, a query has just listed it, or it follows from what the step did.
-/
inductive Assigned (env : Nat → Env) (w : World) (a : Action) (thread : Nat) : Task → Prop where
  | kept {task : Task} (listed : task ∈ w.threads thread) : Assigned env w a thread task
  | polled {task : Task} {scan : Scan} {batch : List Job} {j : Job}
      (polled : a = .poll thread scan batch) (listed : j ∈ batch) (named : task = scan.task j) :
      Assigned env w a thread task
  | due {batch : List Schedule} {sched : Schedule} (expanded : a = .expandCron thread batch)
      (listed : sched ∈ batch) : Assigned env w a thread (.fire sched)
  | fired {id : UUID} {clock nextRunAt : Time} {sched : Schedule} {j : Job}
      {rest : List Task} (run : a = .exec thread id clock)
      (head : w.threads thread = .fire sched :: rest)
      (fired : fireSchedule (env thread) sched id clock = some (j, nextRunAt))
      (stored : (insertJob j w.db).1.isOk = true) :
      Assigned env w a thread (.updateSchedule sched.id clock nextRunAt)
  | read {jobID : UUID} {j : Job} (command : a = .cmdReplay thread jobID) :
      Assigned env w a thread (.replay j)
  | queued (tenantID jobID : UUID) (priority : Int16) :
      Assigned env w a thread (.enqueue tenantID jobID priority)

/-- Carrying out a task leads to queueing, and to the update of a schedule that has fired. -/
theorem Assigned.of_followUps {thread : Nat} {id : UUID} {clock : Time} {head task : Task}
    {rest : List Task} (run : a = .exec thread id clock) (queued : w.threads thread = head :: rest)
    (listed : task ∈ head.followUps (env thread) id clock w.now w.db) :
    Assigned env w a thread task := by
  -- Only a firing schedule leads to more than a queueing.
  cases head with
  | promoteScheduled j | promoteFailed j | replay j =>
    rw [List.mem_singleton.mp listed]
    exact .queued _ _ _
  | requeue j =>
    simp only [Task.followUps] at listed
    split at listed
    · rw [List.mem_singleton.mp listed]
      exact .queued _ _ _
    · cases listed
  | fire sched =>
    simp only [Task.followUps] at listed
    split at listed
    · cases listed
    · rename_i j nextRunAt fired
      split at listed
      · rename_i stored
        simp only [List.mem_cons, List.not_mem_nil, or_false] at listed
        rcases listed with rfl | rfl
        · exact .queued _ _ _
        · exact .fired run queued fired stored
      · cases listed
  | moveToDeadLetter | updateSchedule | enqueue => cases listed

/-- Work that a step assigns has one of the listed origins. -/
theorem Assigned.of_assigns {thread : Nat} {tasks : List Task} {task : Task}
    (assigns : Assigns env w a thread tasks) (listed : task ∈ tasks) :
    Assigned env w a thread task := by
  -- A list of work is new, or what is left of the list that was there.
  cases assigns with
  | submit | replayJob =>
    rw [List.mem_singleton.mp listed]
    exact .queued _ _ _
  | cmdReplay =>
    rw [List.mem_singleton.mp listed]
    exact .read rfl
  | poll =>
    obtain ⟨j, member, rfl⟩ := List.mem_map.mp listed
    exact .polled rfl member rfl
  | expandCron =>
    obtain ⟨sched, member, rfl⟩ := List.mem_map.mp listed
    exact .due rfl member
  | exec queued =>
    rcases List.mem_append.mp listed with new | old
    · exact .of_followUps rfl queued new
    · exact .kept (queued ▸ List.mem_cons_of_mem _ old)
  | drop => exact .kept (List.mem_of_mem_tail listed)
  | crash => cases listed

/-- Every task that a thread has after a step has one of the listed origins. -/
theorem World.assigned {thread : Nat} {task : Task}
    (listed : task ∈ (w.step env a).threads thread) : Assigned env w a thread task := by
  -- Threads other than the one that gets work keep their tasks.
  cases assigned : a.assigns env w with
  | none =>
    rw [World.threads_none assigned] at listed
    exact .kept listed
  | some work =>
    rw [World.threads_some assigned] at listed
    split at listed
    · rename_i same
      subst same
      exact .of_assigns (Action.assigns_inv assigned) listed
    · exact .kept listed

/-- A row appears under an identifier that is drawn in that very step. -/
theorem World.fresh_row (enabled : a.Enabled w) {k : UUID} {row : Job}
    (absent : w.db.jobs.find? k = none) (stored : (w.step env a).db.jobs.find? k = some row) :
    k ∈ a.draws ∧ k ∉ w.drawn := by
  -- Of all effects on a row only the insertion starts from none.
  rcases World.step_row env w a k with same | ⟨op, called, step⟩
  · rw [same, absent] at stored
    cases stored
  · rw [absent, stored] at step
    cases step with
    | insert named =>
      -- Submissions and firing schedules are the only sources of rows.
      cases Action.makes called with
      | submit =>
        rw [← named]
        exact ⟨List.mem_singleton_self _, enabled.2.1⟩
      | fire head fired =>
        obtain ⟨next, template, -, rfl, -⟩ := fireSchedule_inv fired
        rw [← named]
        exact ⟨List.mem_singleton_self _, enabled.1⟩

/-- A step that claimed the job. -/
def claimsJob (k : UUID) (e : Step World Action) : Bool :=
  match e.label with
  | .tryClaim jobID workerID token deadline runID clock =>
    (Op.tryClaim jobID workerID token deadline runID clock).claims k e.pre.db
  | _ => false

/-- A claimed job was pending. -/
theorem claimsJob_row {k : UUID} {e : Step World Action} (claimed : claimsJob k e = true) :
    ∃ row, e.pre.db.jobs.find? k = some row ∧ row.state = .pending := by
  -- This is what the locking read of a claim asks for.
  obtain ⟨w, a, w'⟩ := e
  cases a with
  | tryClaim jobID workerID token deadline runID clock =>
    simp only [claimsJob] at claimed
    obtain ⟨_, _, _, _, _, row, -, found, waiting, -⟩ := Op.claims_inv claimed
    exact ⟨row, found, waiting⟩
  | _ => cases claimed

/-- A succeeded row is final. -/
theorem RowStep.succeeded_final {k : UUID} {op : Op} {row : Job} {after : Option Job}
    (step : RowStep k op (some row) after) (done : row.state = .succeeded) : after = some row := by
  cases step with
  | keep => rfl
  -- Every effect asks for another state.
  | claim state | start _ state | promoteScheduled state | promoteFailed state | replay state
  | cmdReplay state => simp [done] at state
  | extend _ live | complete _ live | completeRow _ live | fail _ live =>
    simp [done, State.inFlight] at live
  | requeue late => simp [Job.expired, done, State.inFlight] at late
  | cancel waiting => simp [done] at waiting
  | forceFail unspared => simp [done] at unspared

/-- No step touches a succeeded row. -/
theorem World.succeeded_step {k : UUID} {row : Job} (found : w.db.jobs.find? k = some row)
    (done : row.state = .succeeded) : (w.step env a).db.jobs.find? k = some row := by
  -- Whatever call the step makes, it has no effect on such a row.
  rcases World.step_row env w a k with same | ⟨op, -, step⟩
  · rw [same, found]
  · rw [found] at step
    exact step.succeeded_final done

end Sluice
