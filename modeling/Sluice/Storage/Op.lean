import Sluice.Scheduler.Cron
import Sluice.Storage.Control
import Sluice.Transition.Run

/-! Storage calls as data, and the runs that any interleaving of them makes. -/

namespace Sluice

open Transition

/--
A call that can change the database, with every value it brings along.

The clock readings, tokens, and identifiers of a call are among those values.
-/
inductive Op where
  | insertJob (j : Job)
  | tryClaim (jobID : UUID) (workerID : String) (token : UUID) (deadline : Time) (runID : UUID)
      (now : Time)
  | markRunning (jobID token : UUID)
  | extendDeadline (jobID token : UUID) (deadline : Time)
  | completeJob (jobID runID token : UUID) (now : Time)
  -- The two statements of a completion, for runs that let other calls in between.
  | completeRow (jobID token : UUID) (now : Time)
  | completeRun (runID : UUID) (now : Time)
  | failJob (jobID runID token : UUID) (errMsg : String) (nextRunAt : Option Time) (now : Time)
  | requeueStaleJob (jobID : UUID) (now dbNow : Time)
  | promoteScheduledToPending (jobID : UUID)
  | promoteFailedToPending (jobID : UUID) (dbNow : Time)
  | cancelJob (jobID tenantID : UUID)
  | replayJob (jobID tenantID : UUID)
  | moveToDeadLetter (jobID : UUID) (dbNow : Time)
  | cmdReplay (jobID : UUID)
  | cmdForceFail (jobID : UUID)
  | insertSchedule (s : Schedule)
  | deleteSchedule (id tenantID : UUID)
  | updateScheduleAfterRun (id : UUID) (lastRunAt nextRunAt : Time)

namespace Op

/-- What a call does to the database. -/
def apply : Op → Db → Db
  | insertJob j, db => (Sluice.insertJob j db).2
  | tryClaim jobID workerID token deadline runID now, db =>
    (Sluice.tryClaim jobID workerID token deadline runID now db).2
  | markRunning jobID token, db => Sluice.markRunning jobID token db
  | extendDeadline jobID token deadline, db => Sluice.extendDeadline jobID token deadline db
  | completeJob jobID runID token now, db => (Sluice.completeJob jobID runID token now db).2
  | completeRow jobID token now, db => (Sluice.completeRow jobID token now db).2
  | completeRun runID now, db => (Sluice.completeRun runID now db).2
  | failJob jobID runID token errMsg nextRunAt now, db =>
    (Sluice.failJob jobID runID token errMsg nextRunAt now db).2
  | requeueStaleJob jobID now dbNow, db => (Sluice.requeueStaleJob jobID now dbNow db).2
  | promoteScheduledToPending jobID, db => Sluice.promoteScheduledToPending jobID db
  | promoteFailedToPending jobID dbNow, db => Sluice.promoteFailedToPending jobID dbNow db
  | cancelJob jobID tenantID, db => (Sluice.cancelJob jobID tenantID db).2
  | replayJob jobID tenantID, db => (Sluice.replayJob jobID tenantID db).2
  | moveToDeadLetter jobID dbNow, db => Sluice.moveToDeadLetter jobID dbNow db
  | cmdReplay jobID, db => (Sluice.cmdReplay jobID db).2
  | cmdForceFail jobID, db => (Sluice.cmdForceFail jobID db).2
  | insertSchedule s, db => (Sluice.insertSchedule s db).2
  | deleteSchedule id tenantID, db => (Sluice.deleteSchedule id tenantID db).2
  | updateScheduleAfterRun id lastRunAt nextRunAt, db =>
    Sluice.updateScheduleAfterRun id lastRunAt nextRunAt db

/-- Whether the call is a claim of the given job that succeeds on this database. -/
def claims (jobID : UUID) (db : Db) : Op → Bool
  | tryClaim id workerID token deadline runID now =>
    id == jobID && (Sluice.tryClaim id workerID token deadline runID now db).1.isSome
  | _ => false

/-- Whether the call gives the job a fresh start: a successful insertion or replay. -/
def opens (jobID : UUID) (db : Db) : Op → Bool
  | insertJob j => j.id == jobID && (Sluice.insertJob j db).1.isOk
  | replayJob id tenantID => id == jobID && (Sluice.replayJob id tenantID db).1.isOk
  | cmdReplay id => id == jobID && (Sluice.cmdReplay id db).1.isOk
  | _ => false

/--
Whether some caller can issue the call.

Only insertions are restricted, to the jobs that submissions and cron schedules build.
-/
def Issued : Op → Prop
  | insertJob j =>
    (∃ tenantID req id now, j = submittedJob tenantID req id now) ∨
      ∃ sched template id now, j = firedJob sched template id now
  | _ => True

end Op

/-- One storage call, issued by any caller. -/
def Call (db : Db) (op : Op) (db' : Db) : Prop := op.Issued ∧ db' = op.apply db

/-- Any interleaving of storage calls from the empty tables, however many callers there are. -/
abbrev Calls (past : List (Step Db Op)) (db : Db) : Prop := Run Call Db.empty past db

/-- The steps of carrying out a list of calls on the empty tables. -/
def callTrace (ops : List Op) : List (Step Db Op) := trace (fun db op => op.apply db) Db.empty ops

/-- The database that a list of calls leaves behind. -/
def afterCalls (ops : List Op) : Db := ops.foldl (fun db op => op.apply db) Db.empty

/-- Carrying out any list of issued calls is a run. -/
theorem calls_callTrace {ops : List Op} (issued : ∀ op ∈ ops, op.Issued) :
    Calls (callTrace ops) (afterCalls ops) :=
  run_trace fun e listed => ⟨issued e.label (mem_trace listed).1, (mem_trace listed).2⟩

/-- A submission is issued by the API. -/
theorem Op.Issued.submitted (tenantID : UUID) (req : SubmitJobRequest) (id : UUID) (now : Time) :
    (Op.insertJob (submittedJob tenantID req id now)).Issued :=
  .inl ⟨tenantID, req, id, now, rfl⟩

end Sluice
