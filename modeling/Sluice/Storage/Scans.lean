import Sluice.Relational.Query
import Sluice.Storage.Claims

/-! The queries behind the scheduler's loops and the listings. -/

namespace Sluice

open Relational

/-- `ORDER BY priority, run_at`. -/
def byPriority (a b : Job) : Bool :=
  decide (a.priority < b.priority) || a.priority == b.priority && decide (a.runAt ≤ b.runAt)

/-- `GetDueJobs`. -/
def getDueJobs (limit : Nat) (dbNow : Time) : Query Job where
  holds j := j.state == .scheduled && decide (j.runAt ≤ dbNow)
  before := byPriority
  offset := 0
  limit := some limit

/-- `GetFailedReadyJobs`. -/
def getFailedReadyJobs (limit : Nat) (dbNow : Time) : Query Job where
  holds j := j.state == .failed && decide (j.runAt ≤ dbNow)
  before := byPriority
  offset := 0
  limit := some limit

/-- `GetStaleClaims`, which asks for no order and no limit. -/
def getStaleClaims (dbNow : Time) : Query Job where
  holds j := j.expired dbNow
  before _ _ := true
  offset := 0
  limit := none

/-- `GetPendingJobs`. -/
def getPendingJobs (limit : Nat) (dbNow : Time) : Query Job where
  -- Jobs that became due just now are given a minute to be claimed by themselves.
  holds j := j.state == .pending && decide (j.runAt ≤ dbNow - minute)
  before := byPriority
  offset := 0
  limit := some limit

/-- The filter of a job listing. -/
structure ListFilter where
  tenantID : Option UUID
  state : Option State
  limit : Nat
  offset : Nat

/-- `ListJobs`, newest first, with fifty rows by default. -/
def listJobs (f : ListFilter) : Query Job where
  -- A filter that is not set lets every row pass.
  holds j := f.tenantID.all (· == j.tenantID) && f.state.all (· == j.state)
  before a b := decide (b.createdAt ≤ a.createdAt)
  offset := f.offset
  limit := some (if f.limit = 0 then 50 else f.limit)

/-- `GetJob`. -/
def getJob (id : UUID) (jobs : Jobs) : Except StorageError Job :=
  match jobs.find? id with
  | none => .error .notFound
  | some j => .ok j

/-- `GetJobForTenant`. -/
def getJobForTenant (id tenantID : UUID) (jobs : Jobs) : Except StorageError Job :=
  match jobs.select? fun j => j.id == id && j.tenantID == tenantID with
  | none => .error .notFound
  | some j => .ok j

/-- `GetJobByIdempotencyKey`. -/
def getJobByIdempotencyKey (tenantID : UUID) (key : String) (jobs : Jobs) :
    Except StorageError Job :=
  match jobs.select? fun j => j.tenantID == tenantID && j.idempotencyKey == some key with
  | none => .error .notFound
  | some j => .ok j

/-- `job_runs JOIN jobs`, with the one column of the jobs that the dashboard shows. -/
def Db.joinedRuns (db : Db) : List (JobRun × String) :=
  db.jobRuns.filterMap fun run => (db.jobs.find? run.jobID).map fun j => (run, j.type)

/-- `ListRecentRuns` on the joined rows. -/
def listRecentRuns (limit : Nat) : Query (JobRun × String) where
  holds _ := true
  before a b := decide (b.1.startedAt ≤ a.1.startedAt)
  offset := 0
  limit := some limit

/-- `GetSchedule`, which asks for the schedule alone. -/
def getSchedule (id : UUID) (schedules : Schedules) : Except StorageError Schedule :=
  match schedules.find? id with
  | none => .error .notFound
  | some s => .ok s

/-- `ListSchedules`, in the order of the database's collation. -/
def listSchedules (collation : String → String → Bool) (tenantID : UUID) : Query Schedule where
  holds s := s.tenantID == tenantID
  before a b := collation a.name b.name
  offset := 0
  limit := none

/-- `GetDueSchedules`. -/
def getDueSchedules (limit : Nat) (dbNow : Time) : Query Schedule where
  holds s := s.enabled && decide (s.nextRunAt ≤ dbNow)
  before a b := decide (a.nextRunAt ≤ b.nextRunAt)
  offset := 0
  limit := some limit

end Sluice
