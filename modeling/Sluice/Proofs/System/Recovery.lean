import Sluice.Proofs.System.Frames
import Sluice.System.Trace

/-! The recovery passes bring every unfinished job back to its queue, or declare it dead. -/

namespace Sluice

open Relational Transition

variable {env : Nat → Env} {w : World} {leader : Nat}

/-- The passes that bring jobs back, in the order in which a leader runs them here. -/
def recoveryScans : List Scan :=
  [.reapStaleClaims, .pollScheduledJobs, .pollFailedJobs, .reconcilePending]

/-- A step of a leader's recovery, with every call succeeding. -/
def recovers (env : Nat → Env) (leader : Nat) (e : Step World Action) : Bool :=
  match e.label with
  -- Time may pass between the calls.
  | .tick _ => true
  | .poll thread _ _ => thread == leader
  | .exec thread id clock =>
    thread == leader && (e.pre.threads leader).head?.all fun task =>
      !task.fails (env leader) id clock e.pre.now e.pre.db
  | _ => false

/-- The passes that the steps of a run begin, in order. -/
def scans (steps : List (Step World Action)) : List Scan :=
  steps.filterMap fun e => match e.label with
    | .poll _ scan _ => some scan
    | _ => none

/-- Jobs that a recovery pass reads still have work to be done on them. -/
theorem unfinished_of_holds (scan : Scan) (listed : scan ∈ recoveryScans) {now : Time} {row : Job}
    (hit : (scan.query now).holds row = true) : row.isTerminal = false := by
  -- Each of the four conditions names the states it asks for.
  cases scan with
  | reapStaleClaims =>
    simp only [Scan.query, getStaleClaims, Job.expired, Bool.and_eq_true] at hit
    rcases (State.inFlight_iff _).mp hit.1 with state | state <;> simp [Job.isTerminal, state]
  | promoteDeadJobs => simp [recoveryScans] at listed
  | pollScheduledJobs | pollFailedJobs | reconcilePending =>
    simp only [Scan.query, getDueJobs, getFailedReadyJobs, getPendingJobs, Bool.and_eq_true,
      beq_iff_eq] at hit
    simp [Job.isTerminal, hit.1]

/-- A job that a recovery pass would read stays one as time goes on. -/
theorem holds_mono {scan : Scan} {now later : Time} (after : now ≤ later) {row : Job}
    (hit : (scan.query now).holds row = true) : (scan.query later).holds row = true := by
  -- Every condition on a time asks for it to have come.
  cases scan with
  | reapStaleClaims =>
    simp only [Scan.query, getStaleClaims, Job.expired, Bool.and_eq_true, Option.any_eq_true,
      decide_eq_true_eq] at hit ⊢
    obtain ⟨live, deadline, set, passed⟩ := hit
    exact ⟨live, deadline, set, Int.lt_of_lt_of_le passed after⟩
  | promoteDeadJobs => exact hit
  | pollScheduledJobs | pollFailedJobs | reconcilePending =>
    simp only [Scan.query, getDueJobs, getFailedReadyJobs, getPendingJobs, Bool.and_eq_true,
      decide_eq_true_eq] at hit ⊢
    exact ⟨hit.1, by lia⟩

/-- An unfinished job is read by some recovery pass once its times have passed. -/
theorem read_of_unfinished {now : Time} {row : Job} (consistent : row.Consistent)
    (unfinished : row.isTerminal = false)
    (late : ∀ deadline, row.deadline = some deadline → deadline < now)
    (aged : row.runAt + minute < now) :
    ∃ scan ∈ recoveryScans, (scan.query now).holds row = true := by
  -- The four conditions cover the five states between them.
  have due : row.runAt ≤ now := by
    simp only [minute, second] at aged
    lia
  cases state : row.state with
  | pending =>
    refine ⟨.reconcilePending, by simp [recoveryScans], ?_⟩
    simp only [Scan.query, getPendingJobs, state, beq_self_eq_true, Bool.true_and,
      decide_eq_true_eq]
    lia
  | scheduled =>
    refine ⟨.pollScheduledJobs, by simp [recoveryScans], ?_⟩
    simp [Scan.query, getDueJobs, state, due]
  | failed =>
    refine ⟨.pollFailedJobs, by simp [recoveryScans], ?_⟩
    simp [Scan.query, getFailedReadyJobs, state, due]
  | claimed | running =>
    -- A job in flight has a deadline, which has passed.
    refine ⟨.reapStaleClaims, by simp [recoveryScans], ?_⟩
    have set : row.deadline.isSome = true := consistent.deadline.mpr (by simp [state])
    obtain ⟨deadline, held⟩ := Option.isSome_iff_exists.mp set
    simp [Scan.query, getStaleClaims, Job.expired, state, State.inFlight, held, late deadline held]
  | succeeded | dead => simp [Job.isTerminal, state] at unfinished

/-- What one call of a recovery does to a job, given the calls that follow from it. -/
inductive Restored (next : List Task) (row row' : Job) : Prop where
  | kept (same : row' = row)
  | died (unfinished : row.isTerminal = false) (dead : row'.state = .dead)
  | promoted (unfinished : row.isTerminal = false) (waiting : row'.state = .pending)
      (queued : Task.queue row' ∈ next)

/-- A call that recovery makes for a job as it is stored, up to the columns that may change. -/
def Task.Restores (db : Db) : Task → Prop
  | .promoteScheduled j | .promoteFailed j | .requeue j =>
    ∃ row, db.jobs.find? j.id = some row ∧ Task.queue row = Task.queue j
  | .enqueue .. => True
  | _ => False

/-- The database after a task's call. -/
def Task.after (env : Env) (id : UUID) (clock now : Time) (db : Db) (task : Task) : Db :=
  (task.op env id clock now).elim db fun op => op.apply db

/-- A rewritten row is restored if the rewriting does so wherever its condition is met. -/
theorem restored_of_update {jobs : Jobs} {next : List Task} {k : UUID} {row : Job}
    (found : jobs.find? k = some row) {holds : Job → Bool} {set : Job → Job}
    (effect : holds row = true → Task.queue (set row) = Task.queue row ∧
      Restored next row (set row)) :
    ∃ row', (jobs.find? k).map (fun row => if holds row then set row else row) = some row' ∧
      Task.queue row' = Task.queue row ∧ Restored next row row' := by
  -- A row that the condition leaves out is kept.
  rw [found, Option.map_some]
  by_cases hit : holds row = true
  · rw [if_pos hit]
    exact ⟨set row, rfl, effect hit⟩
  · rw [if_neg hit]
    exact ⟨row, rfl, rfl, .kept rfl⟩

/-- A call of a recovery restores each job or leaves it alone. -/
theorem Task.Restores.row {db : Db} {task : Task} (restores : task.Restores db) {env : Env}
    {id : UUID} {clock now : Time} (succeeds : task.fails env id clock now db = false) {k : UUID}
    {row : Job} (found : db.jobs.find? k = some row) :
    ∃ row', (task.after env id clock now db).jobs.find? k = some row' ∧
      Task.queue row' = Task.queue row ∧
      Restored (task.followUps env id clock now db) row row' := by
  have named : row.id = k := Table.key_of_find? found
  -- A call that meets this row was made for the job as it is stored.
  have same : ∀ j : Job, (∃ stored, db.jobs.find? j.id = some stored ∧
      Task.queue stored = Task.queue j) → row.id = j.id → Task.queue row = Task.queue j := by
    rintro j ⟨stored, located, agrees⟩ aimed
    rw [← aimed, named, found] at located
    cases located
    exact agrees
  cases task with
  | promoteScheduled j =>
    simp only [after, op, Option.elim, Op.apply, promoteScheduledToPending, Table.find?_update]
    refine restored_of_update found fun hit => ⟨rfl, ?_⟩
    simp only [Bool.and_eq_true, beq_iff_eq] at hit
    refine .promoted (by simp [Job.isTerminal, hit.2]) rfl ?_
    exact List.mem_singleton.mpr (same j restores hit.1)
  | promoteFailed j =>
    simp only [after, op, Option.elim, Op.apply, promoteFailedToPending, Table.find?_update]
    refine restored_of_update found fun hit => ⟨rfl, ?_⟩
    simp only [Bool.and_eq_true, beq_iff_eq] at hit
    refine .promoted (by simp [Job.isTerminal, hit.2]) rfl ?_
    exact List.mem_singleton.mpr (same j restores hit.1)
  | requeue j =>
    rcases requeueStaleJob_spec j.id clock now db with
      ⟨-, done⟩ | ⟨jobRuns, -, ⟨stored, located, late, done⟩ | ⟨-, done⟩⟩
    · simp [fails, done, Except.isOk, Except.toBool] at succeeds
    · simp only [after, op, Option.elim, Op.apply, done, followUps, Table.find?_update]
      refine restored_of_update found fun hit => ⟨rfl, ?_⟩
      simp only [stale, Bool.and_eq_true, beq_iff_eq] at hit
      rw [← hit.1, named, found] at located
      cases located
      have unfinished : row.isTerminal = false :=
        unfinished_of_holds .reapStaleClaims (by simp [recoveryScans]) hit.2
      -- The attempts decide between another try and giving up.
      by_cases exhausted : row.attempt + 1 ≥ row.maxRetries
      · exact .died unfinished (by simp [requeueRow, exhausted])
      · have waiting : (requeueRow row).state = .pending := by simp [requeueRow, exhausted]
        refine .promoted unfinished waiting ?_
        rw [waiting]
        exact List.mem_singleton.mpr (same j restores hit.1)
    · simp only [after, op, Option.elim, Op.apply, done]
      exact ⟨row, found, rfl, .kept rfl⟩
  | enqueue => exact ⟨row, found, rfl, .kept rfl⟩
  | moveToDeadLetter | replay | fire | updateSchedule => exact restores.elim

/-- A call of a recovery stores no job. -/
theorem Task.Restores.absent {db : Db} {task : Task} (restores : task.Restores db) {env : Env}
    {id : UUID} {clock now : Time} {k : UUID} (absent : db.jobs.find? k = none) :
    (task.after env id clock now db).jobs.find? k = none := by
  -- Recovery only updates rows.
  cases task with
  | promoteScheduled | promoteFailed =>
    simp only [after, op, Option.elim, Op.apply, promoteScheduledToPending, promoteFailedToPending,
      Table.find?_update, absent, Option.map_none]
  | requeue j =>
    rcases requeueStaleJob_spec j.id clock now db with
      ⟨-, done⟩ | ⟨jobRuns, -, ⟨stored, -, -, done⟩ | ⟨-, done⟩⟩ <;>
      simp [after, op, Op.apply, done, absent]
  | enqueue => exact absent
  | moveToDeadLetter | replay | fire | updateSchedule => exact restores.elim

/-- The call for a job that a pass has just read takes effect. -/
theorem Scan.acts {scan : Scan} (listed : scan ∈ recoveryScans) (other : scan ≠ .reconcilePending)
    {db : Db} {row : Job} {env : Env} {id : UUID} {clock now : Time}
    (found : db.jobs.find? row.id = some row) (hit : (scan.query now).holds row = true)
    (succeeds : (scan.task row).fails env id clock now db = false) :
    ((scan.task row).after env id clock now db).jobs.find? row.id ≠ some row := by
  -- Each of the three calls asks for no more than its query did, and changes the state.
  cases scan with
  | reconcilePending => exact absurd rfl other
  | promoteDeadJobs => simp [recoveryScans] at listed
  | pollScheduledJobs =>
    intro same
    simp only [query, getDueJobs, Bool.and_eq_true, beq_iff_eq] at hit
    have state := congrArg (Option.map Job.state) same
    simp [task, Task.after, Task.op, Op.apply, promoteScheduledToPending, found, hit.1] at state
  | pollFailedJobs =>
    intro same
    simp only [query, getFailedReadyJobs, Bool.and_eq_true, beq_iff_eq] at hit
    have state := congrArg (Option.map Job.state) same
    simp [task, Task.after, Task.op, Op.apply, promoteFailedToPending, found, hit.1] at state
  | reapStaleClaims =>
    intro same
    have late : row.expired now = true := hit
    rcases requeueStaleJob_spec row.id clock now db with
      ⟨-, done⟩ | ⟨jobRuns, -, ⟨stored, located, -, done⟩ | ⟨fresh, -⟩⟩
    · simp [task, Task.fails, done, Except.isOk, Except.toBool] at succeeds
    · have meets : stale row.id now row = true := by simp [stale, late]
      have attempt := congrArg (Option.map Job.attempt) same
      simp [task, Task.after, Task.op, Op.apply, done, found, meets, requeueRow] at attempt
    · rw [fresh row found] at late
      cases late

/-- What is left to happen until a job is dead or in its queue, given the passes still to come. -/
inductive Covered (leader : Nat) (rest : List Scan) (w : World) (row : Job) : Prop where
  | dead (state : row.state = .dead)
  | queued (waiting : row.state = .pending)
      (listed : row.id.toString ∈
        w.redis (queueKey (bucketForPriority row.priority) row.tenantID))
  | queueing (waiting : row.state = .pending) (next : Task.queue row ∈ w.threads leader)
  | unread {scan : Scan} (next : scan ∈ rest) (due : (scan.query w.now).holds row = true)
  | read {scan : Scan} (listed : scan ∈ recoveryScans) (other : scan ≠ .reconcilePending)
      (next : scan.task row ∈ w.threads leader) (due : (scan.query w.now).holds row = true)

/--
A recovery under way, which began in the given world and has some passes left.

No job becomes unfinished on the way, so that the limits of the queries never cut one off.
-/
structure Recovering (leader : Nat) (origin : World) (rest : List Scan) (w : World) : Prop where
  confined : ∀ k row, w.db.jobs.find? k = some row → row.isTerminal = false →
    ∃ old, origin.db.jobs.find? k = some old ∧ old.isTerminal = false
  tasks : ∀ task ∈ w.threads leader, task.Restores w.db
  covered : ∀ k old, origin.db.jobs.find? k = some old → old.isTerminal = false →
    ∃ row, w.db.jobs.find? k = some row ∧ Covered leader rest w row

variable {origin : World} {rest : List Scan}

/-- The passing of time only brings more jobs into reach. -/
theorem Recovering.tick (recovering : Recovering leader origin rest w) {later : Time}
    (after : w.now ≤ later) : Recovering leader origin rest (w.step env (.tick later)) := by
  -- Of all that covers a job, only what the passes look for depends on the clock.
  refine ⟨recovering.confined, recovering.tasks, fun k old found unfinished => ?_⟩
  obtain ⟨row, stored, covered⟩ := recovering.covered k old found unfinished
  refine ⟨row, stored, ?_⟩
  cases covered with
  | dead state => exact .dead state
  | queued waiting listed => exact .queued waiting listed
  | queueing waiting next => exact .queueing waiting next
  | unread next due => exact .unread next (holds_mono after due)
  | read listed other next due => exact .read listed other next (holds_mono after due)

/-- The recovery passes read all they look for while few jobs are unfinished. -/
theorem Recovering.reads (recovering : Recovering leader origin rest w) {scan : Scan}
    (listed : scan ∈ recoveryScans)
    (few : origin.db.jobs.rows.countP (fun j => !j.isTerminal) ≤ 500) {batch : List Job}
    (answers : (scan.query w.now).Answers w.db.jobs.rows batch) {k : UUID} {row : Job}
    (stored : w.db.jobs.find? k = some row) (due : (scan.query w.now).holds row = true) :
    row ∈ batch := by
  have member : row ∈ w.db.jobs.rows :=
    Table.mem_rows_iff.mpr (by rwa [Table.key_of_find? stored])
  -- Every row a pass looks for was unfinished from the start.
  have bound : w.db.jobs.rows.countP (scan.query w.now).holds ≤ 500 := by
    refine Nat.le_trans (Table.countP_le fun k row' found hit => ?_) few
    obtain ⟨old, located, unfinished⟩ :=
      recovering.confined k row' found (unfinished_of_holds scan listed hit)
    exact ⟨old, located, by simp [unfinished]⟩
  refine answers.complete ?_ ?_ member due
  · cases scan <;> rfl
  · intro n limited
    cases scan with
    | reapStaleClaims => cases limited
    | promoteDeadJobs => simp [recoveryScans] at listed
    | pollScheduledJobs | pollFailedJobs | reconcilePending =>
      cases limited
      exact bound

/-- A pass takes every job it looks for in hand. -/
theorem Recovering.poll {scan : Scan} (recovering : Recovering leader origin (scan :: rest) w)
    (listed : scan ∈ recoveryScans)
    (few : origin.db.jobs.rows.countP (fun j => !j.isTerminal) ≤ 500) {batch : List Job}
    (enabled : (Action.poll leader scan batch).Enabled w) :
    Recovering leader origin rest (w.step env (.poll leader scan batch)) := by
  obtain ⟨idle, answers⟩ := enabled
  have handed : (w.step env (.poll leader scan batch)).threads leader = batch.map scan.task := by
    rw [World.threads_some rfl, if_pos rfl]
  refine ⟨recovering.confined, ?_, fun k old found unfinished => ?_⟩
  · -- Each task is about a row as it is stored.
    intro task assigned
    rw [handed] at assigned
    obtain ⟨j, member, rfl⟩ := List.mem_map.mp assigned
    have stored : w.db.jobs.find? j.id = some j := Table.mem_rows_iff.mp (answers.sound member).1
    cases scan with
    | promoteDeadJobs => simp [recoveryScans] at listed
    | reconcilePending => trivial
    | pollScheduledJobs | pollFailedJobs | reapStaleClaims => exact ⟨j, stored, rfl⟩
  · obtain ⟨row, stored, covered⟩ := recovering.covered k old found unfinished
    refine ⟨row, stored, ?_⟩
    cases covered with
    | dead state => exact .dead state
    | queued waiting listed => exact .queued waiting listed
    | queueing _ next | read _ _ next =>
      -- A leader starts a pass with nothing left to do.
      rw [idle] at next
      cases next
    | @unread scan' next due =>
      rcases List.mem_cons.mp next with rfl | later
      · have assigned : scan'.task row ∈
            (w.step env (.poll leader scan' batch)).threads leader := by
          rw [handed]
          exact List.mem_map_of_mem (recovering.reads listed few answers stored due)
        by_cases last : scan' = .reconcilePending
        · subst last
          simp only [Scan.query, getPendingJobs, Bool.and_eq_true, beq_iff_eq] at due
          exact .queueing due.1 assigned
        · exact .read listed last assigned due
      · exact .unread later due

/-- Carrying out a task does its call, its queueing, and leaves what follows from it. -/
theorem World.step_exec (env : Nat → Env) {head : Task} {tail : List Task}
    (queued : w.threads leader = head :: tail) (id : UUID) (clock : Time) :
    (w.step env (.exec leader id clock)).db = head.after (env leader) id clock w.now w.db ∧
      (w.step env (.exec leader id clock)).threads leader =
        head.followUps (env leader) id clock w.now w.db ++ tail ∧
      (w.step env (.exec leader id clock)).redis = head.push w.redis := by
  have assigned : (Action.exec leader id clock).assigns env w =
      some (leader, head.followUps (env leader) id clock w.now w.db ++ tail) := by
    simp only [Action.assigns, queued]
  refine ⟨?_, ?_, ?_⟩
  · simp only [World.step, Action.op, queued, List.head?_cons, Option.bind_some, Task.after]
  · rw [World.threads_some assigned, if_pos rfl]
  · simp only [World.step, Action.redis, queued, List.head?_cons, Option.elim]

/-- No task takes an identifier out of a list. -/
theorem Task.push_keeps (task : Task) {redis : Redis} {key value : String}
    (listed : value ∈ redis key) : value ∈ task.push redis key := by
  cases task with
  | enqueue tenantID jobID priority => exact enqueue_keeps tenantID jobID priority listed
  | _ => exact listed

/-- Only queueing follows from the calls of a recovery. -/
theorem Task.Restores.followUps {db db' : Db} {head task : Task} (restores : head.Restores db)
    {env : Env} {id : UUID} {clock now : Time}
    (listed : task ∈ head.followUps env id clock now db) : task.Restores db' := by
  -- And queueing restores whatever the database holds.
  cases head with
  | promoteScheduled | promoteFailed =>
    rw [List.mem_singleton.mp listed]
    trivial
  | requeue =>
    simp only [Task.followUps] at listed
    split at listed
    · rw [List.mem_singleton.mp listed]
      trivial
    · cases listed
  | enqueue => cases listed
  | moveToDeadLetter | replay | fire | updateSchedule => exact restores.elim

/-- A task stays about a stored job while other calls of the recovery are made. -/
theorem Task.Restores.after {db : Db} {head task : Task} (restores : task.Restores db)
    (before : head.Restores db) {env : Env} {id : UUID} {clock now : Time}
    (succeeds : head.fails env id clock now db = false) :
    task.Restores (head.after env id clock now db) := by
  -- No call of a recovery changes the columns that tasks carry.
  cases task with
  | promoteScheduled j | promoteFailed j | requeue j =>
    obtain ⟨row, found, agrees⟩ := restores
    obtain ⟨row', found', same, -⟩ := before.row succeeds found
    exact ⟨row', found', same.trans agrees⟩
  | enqueue => trivial
  | moveToDeadLetter | replay | fire | updateSchedule => exact restores.elim

/-- Each call brings the jobs a step closer, and loses none. -/
theorem Recovering.exec (recovering : Recovering leader origin rest w) {head : Task}
    {tail : List Task} (queued : w.threads leader = head :: tail) {id : UUID} {clock : Time}
    (succeeds : head.fails (env leader) id clock w.now w.db = false) :
    Recovering leader origin rest (w.step env (.exec leader id clock)) := by
  -- What the call does to each row decides all three parts.
  obtain ⟨stored, threads, redis⟩ := World.step_exec env queued id clock
  have restores : head.Restores w.db := recovering.tasks head (queued ▸ List.mem_cons_self)
  refine ⟨fun k row found unfinished => ?_, fun task listed => ?_, fun k old found unfinished => ?_⟩
  · rw [stored] at found
    cases before : w.db.jobs.find? k with
    | none =>
      rw [restores.absent before] at found
      cases found
    | some row' =>
      obtain ⟨row₂, located, -, restored⟩ := restores.row succeeds before
      rw [found, Option.some.injEq] at located
      subst located
      cases restored with
      | kept same => exact recovering.confined k row' before (same ▸ unfinished)
      | died _ dead => simp [Job.isTerminal, dead] at unfinished
      | promoted open_ => exact recovering.confined k row' before open_
  · rw [threads] at listed
    rw [stored]
    rcases List.mem_append.mp listed with new | old
    · exact restores.followUps new
    · exact (recovering.tasks task (queued ▸ List.mem_cons_of_mem _ old)).after restores succeeds
  · obtain ⟨row, before, covered⟩ := recovering.covered k old found unfinished
    obtain ⟨row', located, -, restored⟩ := restores.row succeeds before
    refine ⟨row', by rw [stored, located], ?_⟩
    cases restored with
    | died _ dead => exact .dead dead
    | promoted _ waiting next =>
      exact .queueing waiting (by rw [threads]; exact List.mem_append_left _ next)
    | kept same =>
      -- The row is as before, so its cover can only move on by its own task.
      subst same
      cases covered with
      | dead state => exact .dead state
      | queued waiting listed =>
        exact .queued waiting (by rw [redis]; exact head.push_keeps listed)
      | queueing waiting next =>
        rw [queued] at next
        rcases List.mem_cons.mp next with rfl | later
        · exact .queued waiting (by rw [redis]; exact mem_enqueue _ _ _ _)
        · exact .queueing waiting (by rw [threads]; exact List.mem_append_right _ later)
      | unread next due => exact .unread next due
      | read listed other next due =>
        rw [queued] at next
        rcases List.mem_cons.mp next with rfl | later
        · have named : row'.id = k := Table.key_of_find? before
          subst named
          exact absurd located (Scan.acts listed other before due succeeds)
        · exact .read listed other (by rw [threads]; exact List.mem_append_right _ later) due

/-- A recovery stays on course, whatever time passes between its calls. -/
theorem recovering_of_run {later : List (Step World Action)}
    (start : Recovering leader origin recoveryScans origin)
    (few : origin.db.jobs.rows.countP (fun j => !j.isTerminal) ≤ 500)
    (run : Run (Next env) origin later w) (steps : ∀ e ∈ later, recovers env leader e = true)
    (rest : List Scan) (begun : recoveryScans = scans later ++ rest) :
    Recovering leader origin rest w := by
  -- Along the run, for whatever passes are still to come.
  revert steps rest begun
  refine run.history (fun later w => (∀ e ∈ later, recovers env leader e = true) →
    ∀ rest, recoveryScans = scans later ++ rest → Recovering leader origin rest w) ?_ ?_
  · intro _ rest begun
    rw [begun] at start
    exact start
  · rintro later w a w' - ih ⟨enabled, rfl⟩ steps rest begun
    have earlier := ih fun e listed => steps e (List.mem_append_left _ listed)
    have last : recovers env leader ⟨w, a, w.step env a⟩ = true := steps _ (by simp)
    rw [scans, List.filterMap_append, ← scans, List.append_assoc] at begun
    cases a with
    | tick later => exact (earlier rest begun).tick enabled
    | poll thread scan batch =>
      obtain rfl : thread = leader := beq_iff_eq.mp last
      -- The pass that begins is the first of those that were left.
      have listed : scan ∈ recoveryScans := by
        rw [begun]
        simp
      exact (earlier (scan :: rest) begun).poll listed few enabled
    | exec thread id clock =>
      obtain ⟨head, tail, queued⟩ := List.exists_cons_of_ne_nil enabled.2.2
      simp only [recovers, Bool.and_eq_true, beq_iff_eq] at last
      obtain ⟨rfl, succeeds⟩ := last
      rw [queued] at succeeds
      exact (earlier rest begun).exec queued (by simpa using succeeds)
    | _ => cases last

/-- How many calls a task leads to, itself included. -/
def Task.cost : Task → Nat
  | .fire .. => 3
  | .promoteScheduled _ | .promoteFailed _ | .requeue _ | .replay _ => 2
  | .moveToDeadLetter _ | .updateSchedule .. | .enqueue .. => 1

/-- How many calls a thread has left to make at most. -/
def World.work (w : World) (thread : Nat) : Nat := ((w.threads thread).map Task.cost).sum

/-- What follows from a task costs less than the task. -/
theorem Task.followUps_cost (env : Env) (id : UUID) (clock now : Time) (db : Db) (task : Task) :
    ((task.followUps env id clock now db).map cost).sum < task.cost := by
  -- Only two tasks make what follows depend on the outcome.
  cases task with
  | requeue j =>
    simp only [followUps]
    split <;> simp [queue, cost]
  | fire sched =>
    simp only [followUps]
    split
    · simp [cost]
    · split <;> simp [queue, cost]
  | _ => simp [followUps, queue, cost]

/-- Every call leaves its thread with less to do. -/
theorem World.work_exec (env : Nat → Env) {head : Task} {tail : List Task}
    (queued : w.threads leader = head :: tail) (id : UUID) (clock : Time) :
    (w.step env (.exec leader id clock)).work leader < w.work leader := by
  have cheaper := head.followUps_cost (env leader) id clock w.now w.db
  simp only [World.work, (World.step_exec env queued id clock).2.1, queued, List.map_append,
    List.sum_append, List.map_cons, List.sum_cons]
  omega

/-- A pass takes on at most two calls for each job it reads. -/
theorem World.work_poll (env : Nat → Env) (w : World) (leader : Nat) (scan : Scan)
    (batch : List Job) :
    (w.step env (.poll leader scan batch)).work leader ≤ 2 * batch.length := by
  have handed : (w.step env (.poll leader scan batch)).threads leader = batch.map scan.task := by
    rw [World.threads_some rfl, if_pos rfl]
  have cheap : ∀ j, (scan.task j).cost ≤ 2 := by
    intro j
    cases scan <;> simp [Scan.task, Task.cost]
  rw [World.work, handed]
  -- The cost of the batch is bounded row by row.
  clear handed
  induction batch with
  | nil => simp
  | cons j batch ih =>
    have first := cheap j
    simp only [List.map_cons, List.sum_cons, List.length_cons]
    omega

/-- How many calls a run has made. -/
def callsMade (steps : List (Step World Action)) : Nat :=
  steps.countP fun e => match e.label with
    | .exec .. => true
    | _ => false

/-- How many jobs the passes of a run have read in all. -/
def jobsRead (steps : List (Step World Action)) : Nat :=
  (steps.map fun e => match e.label with
    | .poll _ _ batch => batch.length
    | _ => 0).sum

/-- The passes of a recovery end: they make at most two calls for each job they have read. -/
theorem recovery_calls_bounded {later : List (Step World Action)}
    (idle : origin.threads leader = []) (run : Run (Next env) origin later w)
    (steps : ∀ e ∈ later, recovers env leader e = true) :
    callsMade later + w.work leader ≤ 2 * jobsRead later := by
  revert steps
  -- The calls made and those still to be made are paid for by the jobs that were read.
  refine run.history (fun later w => (∀ e ∈ later, recovers env leader e = true) →
    callsMade later + w.work leader ≤ 2 * jobsRead later) ?_ ?_
  · intro _
    simp [World.work, idle, callsMade]
  · rintro later w a w' - ih ⟨enabled, rfl⟩ steps
    have earlier := ih fun e listed => steps e (List.mem_append_left _ listed)
    have last : recovers env leader ⟨w, a, w.step env a⟩ = true := steps _ (by simp)
    simp only [callsMade, jobsRead, List.countP_append, List.countP_singleton, List.map_append,
      List.map_cons, List.map_nil, List.sum_append, List.sum_singleton] at earlier ⊢
    cases a with
    | tick => exact earlier
    | poll thread scan batch =>
      obtain rfl : thread = leader := beq_iff_eq.mp last
      have taken := World.work_poll env w thread scan batch
      simp only [Bool.false_eq_true, if_false, Nat.add_zero]
      omega
    | exec thread id clock =>
      obtain ⟨head, tail, queued⟩ := List.exists_cons_of_ne_nil enabled.2.2
      obtain rfl : thread = leader := beq_iff_eq.mp (Bool.and_eq_true_iff.mp last).1
      have less := World.work_exec env queued id clock
      simp only [if_true, Nat.add_zero]
      omega
    | _ => cases last

/-- In a reached state whose times have passed, some recovery pass looks for each unfinished job. -/
theorem recovering_origin {past : List (Step World Action)} (run : Reaches env past origin)
    (idle : origin.threads leader = [])
    (late : ∀ j ∈ origin.db.jobs.rows, ∀ deadline, j.deadline = some deadline →
      deadline < origin.now)
    (aged : ∀ j ∈ origin.db.jobs.rows, j.runAt + minute < origin.now) :
    Recovering leader origin recoveryScans origin := by
  obtain ⟨calls, made⟩ := run.calls
  refine ⟨fun k row stored open_ => ⟨row, stored, open_⟩, ?_, fun k old found unfinished => ?_⟩
  · rw [idle]
    simp
  · -- Rows of a reached state are consistent, so a job in flight has a deadline.
    have member : old ∈ origin.db.jobs.rows :=
      Table.mem_rows_iff.mpr (by rwa [Table.key_of_find? found])
    obtain ⟨scan, listed, due⟩ := read_of_unfinished (made.consistent k old found) unfinished
      (late old member) (aged old member)
    exact ⟨old, found, .unread listed due⟩

/--
The four passes of an undisturbed leader bring every unfinished job of a reached state back.

They never get stuck, and they make at most two calls for each job they read. When they are over,
each job is dead, or pending and listed under a key that workers of its tenant scan.
-/
theorem no_job_stranded {past : List (Step World Action)} (run : Reaches env past origin)
    (idle : origin.threads leader = [])
    (few : origin.db.jobs.rows.countP (fun j => !j.isTerminal) ≤ 500)
    (late : ∀ j ∈ origin.db.jobs.rows, ∀ deadline, j.deadline = some deadline →
      deadline < origin.now)
    (aged : ∀ j ∈ origin.db.jobs.rows, j.runAt + minute < origin.now)
    {later : List (Step World Action)} (recovery : Run (Next env) origin later w)
    (steps : ∀ e ∈ later, recovers env leader e = true)
    (begun : recoveryScans = scans later ++ rest) :
    callsMade later ≤ 2 * jobsRead later ∧
    (w.threads leader ≠ [] → ∀ id, id ∉ w.drawn → (Action.exec leader id w.now).Enabled w) ∧
    (w.threads leader = [] → ∀ scan, ∃ batch, (Action.poll leader scan batch).Enabled w) ∧
    (w.threads leader = [] → rest = [] → ∀ k old, origin.db.jobs.find? k = some old →
      old.isTerminal = false →
      ∃ row, w.db.jobs.find? k = some row ∧
        (row.state = .dead ∨
          row.state = .pending ∧
            queueKey (bucketForPriority row.priority) row.tenantID ∈
              priorityBuckets.map (fun bucket => queueKey bucket row.tenantID) ∧
            k.toString ∈ w.redis (queueKey (bucketForPriority row.priority) row.tenantID))) := by
  have recovering : Recovering leader origin rest w :=
    recovering_of_run (recovering_origin run idle late aged) few recovery steps rest begun
  have bounded := recovery_calls_bounded idle recovery steps
  refine ⟨by omega, fun busy id fresh => ⟨fresh, Int.le_refl _, busy⟩, ?_, ?_⟩
  · intro free scan
    exact ⟨_, free, scan.run_answers w.now w.db.jobs.rows⟩
  · rintro done rfl k old found unfinished
    -- Without passes or calls to come, only the two ends of a recovery are left.
    obtain ⟨row, stored, covered⟩ := recovering.covered k old found unfinished
    refine ⟨row, stored, ?_⟩
    cases covered with
    | dead state => exact .inl state
    | queued waiting listed =>
      rw [Table.key_of_find? stored] at listed
      exact .inr ⟨waiting, List.mem_map_of_mem (bucketForPriority_mem row.priority), listed⟩
    | queueing _ next | read _ _ next =>
      rw [done] at next
      cases next
    | unread next => cases next

/-- A submission that asks to run at second one. -/
def laterRequest : SubmitJobRequest := { SubmitJobRequest.hook with runAt := some second }

/-- A worker stops with a claimed job while another one is scheduled, and Redis loses its lists. -/
def strandedRun : List Action :=
  [.submit 0 7 .hook 1 0, .exec 0 31 0, .tryClaim 1 "w" 21 minute 11 0,
    .submit 0 7 laterRequest 2 0, .loseRedis fun _ => [], .tick (3 * minute)]

/-- The claimed job as the reaper finds it. -/
def strandedJob : Job := claimRow "w" 21 minute 0 (submittedJob 7 .hook 1 0).inserted

/-- The scheduled job as it was stored. -/
def delayedJob : Job := (submittedJob 7 laterRequest 2 0).inserted

/-- The recovery of the two jobs, the last pass of which queues both once more. -/
def recoveringRun : List Action :=
  [.poll 1 .reapStaleClaims [strandedJob], .exec 1 32 0, .exec 1 33 0,
    .poll 1 .pollScheduledJobs [delayedJob], .exec 1 34 0, .exec 1 35 0,
    .poll 1 .pollFailedJobs [],
    .poll 1 .reconcilePending [requeueRow strandedJob, { delayedJob with state := .pending }],
    .exec 1 36 0, .exec 1 37 0]

/-- The system once Redis has lost its lists. -/
def strandedWorld : World := afterActions (fun _ => .everyMinute) 0 strandedRun

/-- The system after the recovery. -/
def recoveredWorld : World :=
  recoveringRun.foldl (World.step fun _ => .everyMinute) strandedWorld

theorem no_job_stranded_recovered :
    ∃ row, recoveredWorld.db.jobs.find? 1 = some row ∧
      (row.state = .dead ∨
        row.state = .pending ∧
          queueKey (bucketForPriority row.priority) row.tenantID ∈
            priorityBuckets.map (fun bucket => queueKey bucket row.tenantID) ∧
          UUID.toString 1 ∈ recoveredWorld.redis
            (queueKey (bucketForPriority row.priority) row.tenantID)) := by
  have run : Reaches (fun _ => .everyMinute) (worldTrace (fun _ => .everyMinute) 0 strandedRun)
      strandedWorld := reaches_worldTrace _ 0 strandedRun (by decide +kernel)
  have recovery := run_of_check (fun _ => .everyMinute) strandedWorld recoveringRun
    (by decide +kernel)
  have idle : strandedWorld.threads 1 = [] := by decide +kernel
  have rows : strandedWorld.db.jobs.rows = [strandedJob, delayedJob] := by decide +kernel
  have found : strandedWorld.db.jobs.find? 1 = some strandedJob := by decide +kernel
  have late : ∀ j ∈ strandedWorld.db.jobs.rows, ∀ deadline, j.deadline = some deadline →
      deadline < strandedWorld.now := by
    intro j member deadline set
    rw [rows] at member
    rcases List.mem_cons.mp member with rfl | member
    · cases set
      decide +kernel
    · rw [List.mem_singleton.mp member] at set
      cases set
  have aged : ∀ j ∈ strandedWorld.db.jobs.rows, j.runAt + minute < strandedWorld.now := by
    intro j member
    rw [rows] at member
    rcases List.mem_cons.mp member with rfl | member
    · decide +kernel
    · rw [List.mem_singleton.mp member]
      decide +kernel
  -- Nothing is left of the four passes.
  have ended : recoveryScans =
      scans (trace (World.step fun _ => .everyMinute) strandedWorld recoveringRun) ++ [] := by
    decide +kernel
  obtain ⟨-, -, -, restored⟩ := no_job_stranded run idle (by decide +kernel) late aged
    recovery (List.all_eq_true.mp (by decide +kernel)) ended
  exact restored (by decide +kernel) rfl 1 strandedJob found (by decide +kernel)

end Sluice
