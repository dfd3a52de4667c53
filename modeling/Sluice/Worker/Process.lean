import Sluice.Job.Backoff
import Sluice.Storage.Scans
import Sluice.Storage.Statements
import Sluice.Worker.Loop
import Sluice.Worker.Webhook

/-! How a worker carries out the job it has fetched, and what a signal makes of it. -/

namespace Sluice

/--
The calls that `process` makes with its context, in their order.

It is the context of `main`, which `runWorker` hands to `Run`, and a signal cancels it. A signal
arrives at the call that is under way or the next one to be made: that call and all later ones fail
without an effect.
-/
inductive Moment where
  | tryClaim
  | getJob
  | markRunning
  -- The execution of the job, with the heartbeats beside it.
  | execute
  -- `CompleteJob` or `FailJob`, after a number of its statements and commits.
  | record (n : Nat)
  | removeFromProcessing
  deriving DecidableEq

/-- The place of a call in the order. -/
def Moment.place : Moment → Nat
  | tryClaim => 0
  | getJob => 1
  | markRunning => 2
  | execute => 3
  | record _ => 4
  | removeFromProcessing => 5

/-- A context, by the moment of the signal, if there is one before `process` returns. -/
abbrev Context := Option Moment

/-- Whether a call finds its context cancelled or has it cancelled before it ends. -/
def Context.canceled (ctx : Context) (call : Moment) : Bool :=
  ctx.any fun signal => decide (signal.place ≤ call.place)

/-- What a worker counts. -/
inductive Metric where
  | workerInFlight (change : Int)
  | jobRetriesTotal (type : String) (tenantID : UUID)
  | jobsTotal (type state : String) (tenantID : UUID)
  | jobDurationSeconds (type state : String) (tenantID : UUID) (dur : Time)
  deriving DecidableEq

/-- What `process` reads and writes. -/
structure Backends where
  db : Db
  redis : Redis
  metrics : List Metric

/-- What `process` meets besides: drawn identifiers and numbers, clocks, and the web. -/
structure ProcessDraw where
  token : UUID
  runID : UUID
  -- The clock when the claim's deadline is set, and when the claim is made.
  began : Time
  claimedAt : Time
  -- The heartbeats that come before the execution is over or its context is cancelled.
  beats : List Time
  dur : Time
  -- The clock when the next attempt is set, and when the outcome is recorded.
  executedAt : Time
  recordedAt : Time
  intn : Int → Int
  web : Web

/-- How long an execution may take. -/
def httpTimeout : Time := 25 * second

/-- The time between two heartbeats. -/
def heartbeatInterval : Time := 5 * second

/-- How long a heartbeat keeps a claim alive. -/
def heartbeatTTL : Time := 15 * second

/-- The part of `heartbeat` that reaches the database. -/
def heartbeat (jobID token : UUID) (beats : List Time) (db : Db) : Db :=
  beats.foldl (fun db now => extendDeadline jobID token (now + heartbeatTTL) db) db

/-- The call that records an outcome, with what is counted before it. -/
def recording (jobID : UUID) (j : Job) (outcome : Except String Unit) (d : ProcessDraw) :
    JobCall × List Metric :=
  match outcome with
  | .error execErr =>
    let nextRunAt := if j.shouldRetry then
        some (nextRetryAt (j.attempt + 1) j.backoffSeconds d.intn d.executedAt)
      else none
    let retries := if j.shouldRetry then [.jobRetriesTotal j.type j.tenantID] else []
    let finalState := if nextRunAt.isNone then "dead" else "failed"
    (.failJob jobID d.runID d.token execErr nextRunAt d.recordedAt,
      retries ++ [.jobsTotal j.type finalState j.tenantID,
        .jobDurationSeconds j.type finalState j.tenantID d.dur])
  | .ok () =>
    (.completeJob jobID d.runID d.token d.recordedAt,
      [.jobsTotal j.type "succeeded" j.tenantID,
        .jobDurationSeconds j.type "succeeded" j.tenantID d.dur])

/-- What the recording of an outcome has committed when it returns. -/
def record (ctx : Context) (call : JobCall) (db : Db) : Db :=
  match ctx with
  | some (.record n) =>
    let stopped := call.interrupted n db.jobs db.jobRuns
    { db with jobs := stopped.table, jobRuns := stopped.log }
  | _ => if ctx.canceled (.record 0) then db else call.op.apply db

/-- `RemoveFromProcessing` under a context. -/
def Backends.removeFromProcessing (ctx : Context) (workerID : String) (jobID : UUID)
    (s : Backends) : Backends :=
  if ctx.canceled .removeFromProcessing then s
  else { s with redis := Sluice.removeFromProcessing workerID jobID s.redis }

/-- `process` once it has read the job that it has claimed. -/
def Backends.carryOut (ctx : Context) (workerID : String) (jobID : UUID) (d : ProcessDraw)
    (j : Job) (s : Backends) : Backends :=
  -- A job that cannot be marked as running is carried out all the same.
  let db := if ctx.canceled .markRunning then s.db
    else heartbeat jobID d.token d.beats (markRunning jobID d.token s.db)
  let outcome := execute d.web (ctx.canceled .execute) j
  let (call, metrics) := recording jobID j outcome d
  -- An error of the recording is only logged.
  Backends.removeFromProcessing ctx workerID jobID
    { s with
      db := record ctx call db
      metrics := s.metrics ++ [.workerInFlight 1, .workerInFlight (-1)] ++ metrics }

/-- `process`. -/
def process (ctx : Context) (workerID : String) (jobID : UUID) (d : ProcessDraw) (s : Backends) :
    Backends :=
  if ctx.canceled .tryClaim then s.removeFromProcessing ctx workerID jobID
  else
    match tryClaim jobID workerID d.token (d.began + (visibilityTimeout + 30 * second)) d.runID
        d.claimedAt s.db with
    | (none, db) => { s with db }.removeFromProcessing ctx workerID jobID
    | (some _, db) =>
      -- A job that cannot be read stays in the processing list.
      if ctx.canceled .getJob then { s with db }
      else
        match getJob jobID db.jobs with
        | .error _ => { s with db }
        | .ok j => { s with db }.carryOut ctx workerID jobID d j

end Sluice
