import Sluice.Queue.Redis
import Sluice.Storage.Op
import Sluice.Storage.Scans

/-! The scheduler's passes, cut into the calls they make one after the other. -/

namespace Sluice

open Relational

/-- How many due jobs one pass promotes. -/
def duePollBatchSize : Nat := 500

/-- How many failed jobs one pass retries. -/
def failedPollBatchSize : Nat := 500

/-- How many schedules one pass fires. -/
def cronBatchSize : Nat := 200

/-- How many pending jobs one pass queues again. -/
def pendingReconcileBatchSize : Nat := 500

/-- How many dead jobs one pass files. -/
def deadLetterBatchSize : Nat := 200

/-- The passes over the jobs, each of which starts with one query. -/
inductive Scan where
  | pollScheduledJobs
  | pollFailedJobs
  | reapStaleClaims
  | promoteDeadJobs
  | reconcilePending
  deriving DecidableEq, Repr

/-- The query a pass starts with. -/
def Scan.query (dbNow : Time) : Scan → Query Job
  | pollScheduledJobs => getDueJobs duePollBatchSize dbNow
  | pollFailedJobs => getFailedReadyJobs failedPollBatchSize dbNow
  | reapStaleClaims => getStaleClaims dbNow
  | promoteDeadJobs =>
    listJobs { tenantID := none, state := some .dead, limit := deadLetterBatchSize, offset := 0 }
  | reconcilePending => getPendingJobs pendingReconcileBatchSize dbNow

/--
A call that a process still has to make, with what it remembers from earlier reads.

The rows inside are snapshots, which the tables may have left behind by the time of the call.
-/
inductive Task where
  | promoteScheduled (j : Job)
  | promoteFailed (j : Job)
  | requeue (j : Job)
  | moveToDeadLetter (j : Job)
  -- The operator's replay after it has read the job.
  | replay (j : Job)
  | fire (sched : Schedule)
  | updateSchedule (id : UUID) (lastRunAt nextRunAt : Time)
  | enqueue (tenantID jobID : UUID) (priority : Int16)
  deriving DecidableEq

/-- What a pass does for each row of its batch. -/
def Scan.task : Scan → Job → Task
  | pollScheduledJobs, j => .promoteScheduled j
  | pollFailedJobs, j => .promoteFailed j
  | reapStaleClaims, j => .requeue j
  | promoteDeadJobs, j => .moveToDeadLetter j
  | reconcilePending, j => .enqueue j.tenantID j.id j.priority

namespace Task

/-- The queueing that follows once a job may run. -/
def queue (j : Job) : Task := .enqueue j.tenantID j.id j.priority

/--
The storage call behind a task, if it makes one.

The process brings a drawn identifier and a clock reading, and the database its own clock.
-/
def op (env : Env) (id : UUID) (clock dbNow : Time) : Task → Option Op
  | promoteScheduled j => some (.promoteScheduledToPending j.id)
  | promoteFailed j => some (.promoteFailedToPending j.id dbNow)
  | requeue j => some (.requeueStaleJob j.id clock dbNow)
  | moveToDeadLetter j => some (.moveToDeadLetter j.id dbNow)
  | replay j => some (.cmdReplay j.id)
  | fire sched => (fireSchedule env sched id clock).map fun fired => .insertJob fired.1
  | updateSchedule id lastRunAt nextRunAt => some (.updateScheduleAfterRun id lastRunAt nextRunAt)
  | enqueue .. => none

/-- Whether the call reports an error, which cuts the rest of its handling short. -/
def fails (env : Env) (id : UUID) (clock dbNow : Time) (db : Db) : Task → Bool
  | requeue j => !(requeueStaleJob j.id clock dbNow db).1.isOk
  | fire sched =>
    match fireSchedule env sched id clock with
    | none => true
    | some (j, _) => !(insertJob j db).1.isOk
  | _ => false

/-- The calls that a task leads to when it is carried out on this database. -/
def followUps (env : Env) (id : UUID) (clock dbNow : Time) (db : Db) : Task → List Task
  | promoteScheduled j | promoteFailed j | replay j => [queue j]
  | requeue j =>
    match (requeueStaleJob j.id clock dbNow db).1 with
    | .ok false => [queue j]
    -- A dead job is not queued, and neither is one whose requeueing failed.
    | _ => []
  | fire sched =>
    match fireSchedule env sched id clock with
    | none => []
    | some (j, nextRunAt) =>
      if (insertJob j db).1.isOk then [queue j, .updateSchedule sched.id clock nextRunAt] else []
  | moveToDeadLetter _ | updateSchedule .. | enqueue .. => []

/-- What a task does to the Redis lists. -/
def push : Task → Redis → Redis
  | enqueue tenantID jobID priority => Sluice.enqueue tenantID jobID priority
  | _ => id

end Task

end Sluice
