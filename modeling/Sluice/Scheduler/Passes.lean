import Sluice.Scheduler.Tasks
import Sluice.Transition.After

/-! Whole passes of the scheduler, for runs in which nothing else touches what they read. -/

namespace Sluice

open Relational Transition

/--
One pass of `promoteDeadJobs`.

It comes with the database's clock at the query and at each of the calls that follow, which are made
for the rows of the batch in order.
-/
def PromoteDeadJobs (db : Db) (pass : Time × List (Job × Time)) (db' : Db) : Prop :=
  (Scan.promoteDeadJobs.query pass.1).Answers db.jobs.rows (pass.2.map Prod.fst) ∧
    db' = pass.2.foldl (fun db call => moveToDeadLetter call.1.id call.2 db) db

/--
`fireSchedule` on the database, with whether it reports success.

The queueing in between only logs its errors.
-/
def fire (env : Env) (sched : Schedule) (id : UUID) (now : Time) (db : Db) : Bool × Db :=
  match fireSchedule env sched id now with
  | none => (false, db)
  | some (j, nextRunAt) =>
    -- A job that cannot be stored leaves the schedule due.
    match insertJob j db with
    | (.error _, _) => (false, db)
    | (.ok (), db) => (true, updateScheduleAfterRun sched.id now nextRunAt db)

/-- The schedules as the passes of `expandCron` see them, with the clock and what has been fired. -/
structure CronState where
  schedules : Schedules
  clock : Time
  fired : List UUID

/--
One firing within a pass: the schedule as the pass has read it, what the firing draws, and the
database it meets, in which other processes may have changed everything but the schedules.
-/
structure CronFiring where
  sched : Schedule
  id : UUID
  clock : Time
  db : Db

/-- What a firing leaves behind. -/
def CronState.after (env : Env) (f : CronFiring) (s : CronState) : CronState where
  schedules := (fire env f.sched f.id f.clock f.db).2.schedules
  clock := f.clock
  fired := if (fire env f.sched f.id f.clock f.db).1 then f.sched.id :: s.fired else s.fired

/-- A firing with an identifier that no job has, by a clock that does not run backwards. -/
def Fires (env : Env) (s : CronState) (f : CronFiring) (s' : CronState) : Prop :=
  f.db.schedules = s.schedules ∧ f.db.jobs.find? f.id = none ∧ s.clock ≤ f.clock ∧
    s' = s.after env f

/--
One pass of `expandCron`, later than the one before.

A firing that fails does not keep the pass from those that follow.
-/
def ExpandCron (env : Env) (s : CronState) (pass : Time × List CronFiring) (s' : CronState) :
    Prop :=
  -- The batch may be any that the order of the query leaves open.
  s.clock < pass.1 ∧
    (getDueSchedules cronBatchSize pass.1).Answers s.schedules.rows (pass.2.map CronFiring.sched) ∧
    ∃ steps, Run (Fires env) { s with clock := pass.1 } steps s' ∧ steps.map Step.label = pass.2

/-- Every dead job has an entry in the dead-letter table. -/
def Filed (db : Db) : Prop :=
  ∀ j ∈ db.jobs.rows, j.state = .dead → (db.deadLetter.find? j.id).isSome = true

/-- The database and the Redis lists as the polls see them, with the time of the last poll. -/
structure PollState where
  db : Db
  redis : Redis
  clock : Time

/-- What a poll does for one job of its batch, at some time of the database. -/
def PollState.promote (change : UUID → Time → Db → Db) (s : PollState) (call : Job × Time) :
    PollState where
  db := change call.1.id call.2 s.db
  redis := enqueue call.1.tenantID call.1.id call.1.priority s.redis
  clock := s.clock

/--
One poll, no earlier than the one before, all of whose calls succeed.

The batch may be any that the order of the query leaves open.
-/
def Poll (query : Time → Query Job) (change : UUID → Time → Db → Db) (s : PollState)
    (pass : Time × List (Job × Time)) (s' : PollState) : Prop :=
  s.clock ≤ pass.1 ∧ (query pass.1).Answers s.db.jobs.rows (pass.2.map Prod.fst) ∧
    s' = pass.2.foldl (PollState.promote change) { s with clock := pass.1 }

/-- `pollScheduledJobs`. -/
def PollScheduledJobs : PollState → Time × List (Job × Time) → PollState → Prop :=
  Poll (getDueJobs duePollBatchSize) fun id _ => promoteScheduledToPending id

/-- `pollFailedJobs`. -/
def PollFailedJobs : PollState → Time × List (Job × Time) → PollState → Prop :=
  Poll (getFailedReadyJobs failedPollBatchSize) promoteFailedToPending

/-- `reconcilePending`, which queues the jobs of its batch and leaves the database as it is. -/
def ReconcilePending : PollState → Time × List (Job × Time) → PollState → Prop :=
  Poll (getPendingJobs pendingReconcileBatchSize) fun _ _ => id

/-- What `runDuePoll` does at a tick. -/
def RunDuePoll (s : PollState)
    (tick : (Time × List (Job × Time)) × (Time × List (Job × Time))) (s' : PollState) : Prop :=
  ∃ mid, PollScheduledJobs s tick.1 mid ∧ PollFailedJobs mid tick.2 s'

end Sluice
