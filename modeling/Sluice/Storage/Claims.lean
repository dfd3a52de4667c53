import Sluice.Storage.Schema

/-! The storage calls of a job's life: insertion, claim, execution, and its end. -/

namespace Sluice

open Relational

/--
The row an insertion stores, with the claim, error, and completion columns left NULL.

The payload becomes what its column makes of it.
-/
def Job.inserted (j : Job) : Job :=
  { j with
    payload := j.payload.map Json.stored
    claimedAt := none, claimedBy := none, claimToken := none, deadline := none
    lastError := none, completedAt := none }

/--
`isUniqueViolation`, on what the driver says about a number that does not fit its column.

The message has the number in it, and the code of a unique violation is looked for anywhere.
-/
def isUniqueViolation (number : Int) : Bool :=
  decide ("23505".toList <:+: (toString number).toList)

/-- `InsertJob`. -/
def insertJob (j : Job) (db : Db) : Except StorageError Unit × Db :=
  -- The driver refuses numbers that do not fit their column before it sends the statement.
  match [j.attempt, j.maxRetries, j.backoffSeconds].find? fun n => !fitsInt n with
  | some number => (.error (if isUniqueViolation number then .duplicate else .outOfRange), db)
  | none =>
    if j.payload.isNone then (.error .notNull, db)
    else match db.jobs.insert? j.inserted with
      | none => (.error .duplicate, db)
      | some jobs => (.ok (), { db with jobs })

/-- The condition of `TryClaim`'s locking read. -/
def claimable (jobID : UUID) (j : Job) : Bool := j.id == jobID && j.state == .pending

/-- The columns `TryClaim` writes. -/
def claimRow (workerID : String) (token : UUID) (deadline now : Time) (j : Job) : Job :=
  { j with
    state := .claimed, claimedAt := some now, claimedBy := some workerID
    claimToken := some token, deadline := some deadline }

/-- The run `TryClaim` opens for the job it has claimed. -/
def openRun (runID : UUID) (now : Time) (j : Job) : JobRun :=
  { id := runID, jobID := j.id, tenantID := j.tenantID, attempt := j.attempt, startedAt := now
    finishedAt := none, state := .claimed, error := none, durationMs := none }

/--
`TryClaim`, returning the new run's identifier if the claim succeeded.

The token and the run identifier are the values `uuid.New` drew for this call.
-/
def tryClaim (jobID : UUID) (workerID : String) (token : UUID) (deadline : Time) (runID : UUID)
    (now : Time) (db : Db) : Option UUID × Db :=
  match db.jobs.select? (claimable jobID) with
  | none => (none, db)
  | some _ =>
    let jobs := db.jobs.update (fun j => j.id == jobID) (claimRow workerID token deadline now)
      fun _ => ⟨rfl, rfl⟩
    -- The run copies its tenant and attempt from the row just claimed.
    let runs := (jobs.rows.filter fun j => j.id == jobID).map (openRun runID now)
    (some runID, { db with jobs, jobRuns := db.jobRuns ++ runs })

/-- The condition of `MarkRunning`. -/
def startable (jobID token : UUID) (j : Job) : Bool :=
  j.id == jobID && j.claimToken == some token && j.state == .claimed

/-- `MarkRunning`. -/
def markRunning (jobID token : UUID) (db : Db) : Db :=
  { db with
    jobs := db.jobs.update (startable jobID token) (fun j => { j with state := .running })
      fun _ => ⟨rfl, rfl⟩ }

/-- The condition shared by the calls of the worker that holds the claim. -/
def owned (jobID token : UUID) (j : Job) : Bool :=
  j.id == jobID && j.claimToken == some token && j.state.inFlight

/-- `ExtendDeadline`. -/
def extendDeadline (jobID token : UUID) (deadline : Time) (db : Db) : Db :=
  { db with
    jobs := db.jobs.update (owned jobID token) (fun j => { j with deadline := some deadline })
      fun _ => ⟨rfl, rfl⟩ }

/-- The columns `CompleteJob` writes. -/
def succeedRow (now : Time) (j : Job) : Job :=
  { j with state := .succeeded, completedAt := some now, claimToken := none, deadline := none }

/-- The first statement of `CompleteJob`, returning how many rows it affected. -/
def completeRow (jobID token : UUID) (now : Time) (db : Db) : Nat × Db :=
  (db.jobs.affected (owned jobID token),
    { db with
      jobs := db.jobs.update (owned jobID token) (succeedRow now) fun _ => ⟨rfl, rfl⟩ })

/-- The second statement of `CompleteJob`, which leaves the run's error column alone. -/
def completeRun (runID : UUID) (now : Time) (db : Db) : Except StorageError Unit × Db :=
  match updateRows? (fun run => run.id == runID)
      (fun run => run.finish .succeeded now run.error) db.jobRuns with
  | none => (.error .outOfRange, db)
  | some jobRuns => (.ok (), { db with jobRuns })

/-- `CompleteJob`, whose two statements commit one after the other. -/
def completeJob (jobID runID token : UUID) (now : Time) (db : Db) :
    Except StorageError Unit × Db :=
  let (rowsAffected, db) := completeRow jobID token now db
  if rowsAffected == 0 then (.ok (), db) else completeRun runID now db

/-- The state a failed attempt leads to. -/
def failState (newAttempt maxRetries : Int) : State :=
  if newAttempt ≥ maxRetries then .dead else .failed

/-- The run time a failed attempt sets, if any. -/
def failRunAt (newAttempt maxRetries : Int) (nextRunAt : Option Time) : Option Time :=
  if newAttempt ≥ maxRetries then none else nextRunAt

/-- The columns `FailJob` writes, from the attempt and limit its locking read returned. -/
def failRow (attempt maxRetries : Int) (errMsg : String) (nextRunAt : Option Time) (j : Job) :
    Job :=
  { j with
    state := failState (attempt + 1) maxRetries, attempt := attempt + 1, lastError := some errMsg
    runAt := (failRunAt (attempt + 1) maxRetries nextRunAt).getD j.runAt
    claimToken := none, deadline := none }

/-- `FailJob`. -/
def failJob (jobID runID token : UUID) (errMsg : String) (nextRunAt : Option Time) (now : Time)
    (db : Db) : Except StorageError Unit × Db :=
  match db.jobs.select? (owned jobID token) with
  | none => (.ok (), db)
  | some row =>
    let jobs := db.jobs.update (fun j => j.id == jobID)
      (failRow row.attempt row.maxRetries errMsg nextRunAt) fun _ => ⟨rfl, rfl⟩
    match updateRows? (fun run => run.id == runID)
        (JobRun.finish (failState (row.attempt + 1) row.maxRetries) now (some errMsg))
        db.jobRuns with
    -- A failing statement rolls the whole transaction back.
    | none => (.error .outOfRange, db)
    | some jobRuns => (.ok (), { db with jobs, jobRuns })

/-- The error the reaper records. -/
def heartbeatExpired : String := "worker heartbeat expired"

/-- Whether a worker holds the job past its deadline. -/
def Job.expired (dbNow : Time) (j : Job) : Bool :=
  j.state.inFlight && j.deadline.any fun deadline => decide (deadline < dbNow)

/-- The condition under which `RequeueStaleJob` takes a claim away. -/
def stale (jobID : UUID) (dbNow : Time) (j : Job) : Bool := j.id == jobID && j.expired dbNow

/-- The columns `RequeueStaleJob` writes. -/
def requeueRow (j : Job) : Job :=
  { j with
    state := if j.attempt + 1 ≥ j.maxRetries then .dead else .pending
    attempt := j.attempt + 1, claimToken := none, claimedAt := none, claimedBy := none
    deadline := none, lastError := some heartbeatExpired }

/-- The runs `RequeueStaleJob` closes. -/
def openRunOf (jobID : UUID) (run : JobRun) : Bool :=
  run.jobID == jobID && run.finishedAt.isNone

/--
`RequeueStaleJob`, returning whether the job is dead.

The process reads its own clock, and the condition on the deadline reads the database's.
-/
def requeueStaleJob (jobID : UUID) (now dbNow : Time) (db : Db) : Except StorageError Bool × Db :=
  match updateRows? (openRunOf jobID) (JobRun.finish .failed now (some heartbeatExpired))
      db.jobRuns with
  | none => (.error .outOfRange, db)
  | some jobRuns =>
    match db.jobs.select? (stale jobID dbNow) with
    -- The branch without a row commits what the first statement did.
    | none => (.ok false, { db with jobRuns })
    | some row =>
      (.ok ((requeueRow row).state == .dead),
        { db with
          jobs := db.jobs.update (stale jobID dbNow) requeueRow fun _ => ⟨rfl, rfl⟩, jobRuns })

end Sluice
