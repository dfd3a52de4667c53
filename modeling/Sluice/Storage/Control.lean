import Sluice.Storage.Claims

/-! Promotions, cancellation, replay, dead letters, schedules, and the operator's commands. -/

namespace Sluice

open Relational

/-- `PromoteScheduledToPending`. -/
def promoteScheduledToPending (jobID : UUID) (db : Db) : Db :=
  { db with
    jobs := db.jobs.update (fun j => j.id == jobID && j.state == .scheduled)
      (fun j => { j with state := .pending }) fun _ => ⟨rfl, rfl⟩ }

/-- `PromoteFailedToPending`. -/
def promoteFailedToPending (jobID : UUID) (dbNow : Time) (db : Db) : Db :=
  { db with
    jobs := db.jobs.update (fun j => j.id == jobID && j.state == .failed)
      -- The run time of the retry gives way to the time of its promotion.
      (fun j => { j with state := .pending, runAt := dbNow }) fun _ => ⟨rfl, rfl⟩ }

/-- The condition under which `CancelJob` deletes a job. -/
def cancellable (jobID tenantID : UUID) (j : Job) : Bool :=
  j.id == jobID && j.tenantID == tenantID && (j.state == .pending || j.state == .scheduled)

/-- `CancelJob`. -/
def cancelJob (jobID tenantID : UUID) (db : Db) : Except StorageError Unit × Db :=
  if db.jobs.affected (cancellable jobID tenantID) == 0 then (.error .notFound, db)
  else (.ok (), { db with jobs := db.jobs.delete (cancellable jobID tenantID) })

/-- The columns a replay resets. -/
def replayRow (j : Job) : Job :=
  -- The run time is not among them.
  { j with
    state := .pending, attempt := 0, lastError := none, claimToken := none, claimedAt := none
    claimedBy := none, deadline := none }

/-- The condition under which `ReplayJob` resets a job. -/
def replayable (jobID tenantID : UUID) (j : Job) : Bool :=
  j.id == jobID && j.tenantID == tenantID && j.state == .dead

/-- `ReplayJob`, which answers with the job as it reads afterwards. -/
def replayJob (jobID tenantID : UUID) (db : Db) : Except StorageError Job × Db :=
  if db.jobs.affected (replayable jobID tenantID) == 0 then (.error .notFound, db)
  else
    let db := { db with
      jobs := db.jobs.update (replayable jobID tenantID) replayRow fun _ => ⟨rfl, rfl⟩ }
    -- The job is read by a statement of its own, which does not name the tenant again.
    match db.jobs.find? jobID with
    | none => (.error .notFound, db)
    | some j => (.ok j, db)

/-- `MoveToDeadLetter`, which keeps an entry that is already there. -/
def moveToDeadLetter (jobID : UUID) (dbNow : Time) (db : Db) : Db :=
  match db.jobs.select? fun j => j.id == jobID && j.state == .dead with
  | none => db
  | some j =>
    let entry : DeadLetter :=
      { jobID := j.id, tenantID := j.tenantID, movedAt := dbNow, finalError := j.lastError
        attemptCount := j.attempt, originalJob := j }
    -- `ON CONFLICT (job_id) DO NOTHING`.
    { db with deadLetter := (db.deadLetter.insert? entry).getD db.deadLetter }

/-- What an operator's command can end with in place of its effect. -/
inductive CommandError where
  | getJob (e : StorageError)
  | notDead (state : State)
  | notFoundOrTerminal
  deriving DecidableEq

/-- The `replay` command up to its queueing, which answers with the job it read first. -/
def cmdReplay (jobID : UUID) (db : Db) : Except CommandError Job × Db :=
  match db.jobs.find? jobID with
  | none => (.error (.getJob .notFound), db)
  | some j =>
    if j.state != .dead then (.error (.notDead j.state), db)
    -- The update asks for the state once more, but how many rows it changes is not looked at.
    else (.ok j,
      { db with
        jobs := db.jobs.update (fun j => j.id == jobID && j.state == .dead) replayRow
          fun _ => ⟨rfl, rfl⟩ })

/-- The condition of the `force-fail` command, which spares scheduled and finished jobs. -/
def forceFailable (jobID : UUID) (j : Job) : Bool :=
  j.id == jobID &&
    (j.state == .claimed || j.state == .running || j.state == .pending || j.state == .failed)

/-- The columns the `force-fail` command writes. -/
def forceFailRow (j : Job) : Job :=
  { j with
    state := .dead, lastError := some "force-failed by operator", claimToken := none
    deadline := none }

/-- The `force-fail` command. -/
def cmdForceFail (jobID : UUID) (db : Db) : Except CommandError Unit × Db :=
  if db.jobs.affected (forceFailable jobID) == 0 then (.error .notFoundOrTerminal, db)
  else (.ok (),
    { db with
      jobs := db.jobs.update (forceFailable jobID) forceFailRow fun _ => ⟨rfl, rfl⟩ })

/-- The row an insertion stores, with the template as its column keeps it. -/
def Schedule.inserted (s : Schedule) : Schedule :=
  { s with jobTemplate := s.jobTemplate.stored, lastRunAt := none }

/-- `InsertSchedule`. -/
def insertSchedule (s : Schedule) (db : Db) : Except StorageError Unit × Db :=
  match db.schedules.insert? s.inserted with
  | none => (.error .duplicate, db)
  | some schedules => (.ok (), { db with schedules })

/-- `DeleteSchedule`. -/
def deleteSchedule (id tenantID : UUID) (db : Db) : Except StorageError Unit × Db :=
  let named := fun s : Schedule => s.id == id && s.tenantID == tenantID
  if db.schedules.affected named == 0 then (.error .notFound, db)
  else (.ok (), { db with schedules := db.schedules.delete named })

/-- `UpdateScheduleAfterRun`. -/
def updateScheduleAfterRun (id : UUID) (lastRunAt nextRunAt : Time) (db : Db) : Db :=
  { db with
    schedules := db.schedules.update (fun s => s.id == id)
      (fun s => { s with lastRunAt := some lastRunAt, nextRunAt }) fun _ => ⟨rfl, rfl⟩ }

end Sluice
