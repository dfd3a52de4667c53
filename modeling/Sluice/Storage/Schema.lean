import Sluice.Job.Model
import Sluice.Relational.Rows
import Sluice.Relational.Table

/-! The tables as the migrations leave them, and the values their columns can hold. -/

namespace Sluice

open Relational

/-- The unique index `(tenant_id, idempotency_key)`, in which jobs without a key never clash. -/
def Job.idempotency (j : Job) : Option (UUID × String) :=
  j.idempotencyKey.map fun key => (j.tenantID, key)

/-- The `jobs` table. -/
abbrev Jobs := Table Job.id Job.idempotency

/-- A row of `job_runs`, which has no primary key since it was partitioned. -/
structure JobRun where
  id : UUID
  jobID : UUID
  tenantID : UUID
  attempt : Int
  startedAt : Time
  finishedAt : Option Time
  state : State
  error : Option String
  durationMs : Option Int
  deriving DecidableEq

/-- A row of `dead_letter`. -/
structure DeadLetter where
  jobID : UUID
  tenantID : UUID
  movedAt : Time
  finalError : Option String
  attemptCount : Int
  originalJob : Job
  deriving DecidableEq

/-- A row of `schedules`. -/
structure Schedule where
  id : UUID
  tenantID : UUID
  name : String
  cron : String
  timezone : String
  jobTemplate : Json
  enabled : Bool
  lastRunAt : Option Time
  nextRunAt : Time
  deriving DecidableEq

/-- The unique index `(tenant_id, name)`. -/
def Schedule.named (s : Schedule) : Option (UUID × String) := some (s.tenantID, s.name)

/-- The `schedules` table. -/
abbrev Schedules := Table Schedule.id Schedule.named

/-- The database, as far as jobs and schedules go. -/
structure Db where
  jobs : Jobs
  jobRuns : List JobRun
  deadLetter : Table DeadLetter.jobID fun _ => (none : Option Unit)
  schedules : Schedules
  deriving DecidableEq

/-- The tables right after the migrations. -/
def Db.empty : Db := ⟨.empty, [], .empty, .empty⟩

/-- What a storage call can return in place of its result. -/
inductive StorageError where
  -- The two sentinel errors `ErrNotFound` and `ErrDuplicate`.
  | notFound
  | duplicate
  -- A value does not fit its `INT` column, or a column that must have one has none.
  | outOfRange
  | notNull
  deriving DecidableEq, Repr

/-- Whether a number fits an `INT` column. -/
def fitsInt (n : Int) : Bool := decide (-2147483648 ≤ n ∧ n ≤ 2147483647)

/-- `EXTRACT(EPOCH FROM elapsed)::INT`, which rounds halves away from zero. -/
def epochSeconds (elapsed : Time) : Int :=
  if 0 ≤ elapsed then (elapsed + 500000) / second else -((-elapsed + 500000) / second)

/--
`EXTRACT(EPOCH FROM (finish - start))::INT * 1000`.

Both the cast and the product are `INT` operations, which fail when they leave its range.
-/
def elapsedMs (start finish : Time) : Option Int :=
  let seconds := epochSeconds (finish - start)
  if fitsInt seconds && fitsInt (seconds * 1000) then some (seconds * 1000) else none

/--
The copy that undoing the partitions makes of `job_runs`.

The unpartitioned table has a primary key again, and its jobs are references.
-/
def Db.unpartitionRuns (db : Db) : Option (List JobRun) :=
  if (db.jobRuns.map JobRun.id).Nodup ∧
      ∀ run ∈ db.jobRuns, (db.jobs.find? run.jobID).isSome = true then some db.jobRuns else none

/-- Closes a run with its final state, its error column, and its duration. -/
def JobRun.finish (state : State) (now : Time) (error : Option String) (run : JobRun) :
    Option JobRun :=
  (elapsedMs run.startedAt now).map fun duration =>
    { run with state, finishedAt := some now, error, durationMs := some duration }

end Sluice
