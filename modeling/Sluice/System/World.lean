import Mathlib.Logic.Function.Basic
import Sluice.Scheduler.Tasks

/-! The whole system: one database, Redis, and any number of processes that share them. -/

namespace Sluice

open Relational Transition

/-- What a worker remembers of a claim it has made. -/
structure Claim where
  jobID : UUID
  token : UUID
  runID : UUID
  deriving DecidableEq

/-- The state of the system at one moment. -/
structure World where
  now : Time
  db : Db
  redis : Redis
  -- Every identifier that some process has drawn.
  drawn : List UUID
  claims : List Claim
  -- The completions between their two statements, with the clock reading of the first.
  completing : List (Claim × Time)
  -- What each scheduler loop, request, or command still has to do.
  threads : Nat → List Task

/-- The system before its first step. -/
def World.init (start : Time) : World where
  now := start
  db := .empty
  redis _ := []
  drawn := []
  claims := []
  completing := []
  threads _ := []

/--
One step of one participant.

Clock readings may lie before the step, since a process can pause between the two.
-/
inductive Action where
  | tick (later : Time)
  -- Requests to the API.
  | submit (thread : Nat) (tenantID : UUID) (req : SubmitJobRequest) (id : UUID) (clock : Time)
  | cancelJob (jobID tenantID : UUID)
  | replayJob (thread : Nat) (jobID tenantID : UUID)
  | createSchedule (sched : Schedule)
  | deleteSchedule (id tenantID : UUID)
  -- Commands of an operator.
  | cmdReplay (thread : Nat) (jobID : UUID)
  | cmdForceFail (jobID : UUID)
  -- Calls of the workers.
  | tryClaim (jobID : UUID) (workerID : String) (token : UUID) (deadline : Time) (runID : UUID)
      (clock : Time)
  | markRunning (c : Claim)
  | extendDeadline (c : Claim) (deadline : Time)
  | completeRow (c : Claim) (clock : Time)
  | completeRun (c : Claim) (clock : Time)
  -- A worker that stops between the two statements of a completion.
  | abandon (c : Claim) (clock : Time)
  | failJob (c : Claim) (errMsg : String) (nextRunAt : Option Time) (clock : Time)
  -- The scheduler's passes, and the calls they lead to.
  | poll (thread : Nat) (scan : Scan) (batch : List Job)
  | expandCron (thread : Nat) (batch : List Schedule)
  | exec (thread : Nat) (id : UUID) (clock : Time)
  -- A call that fails without effect, a process that stops, and a Redis that loses its lists.
  | drop (thread : Nat)
  | crash (thread : Nat)
  | loseRedis (redis : Redis)

namespace Action

/-- The identifiers an action draws. -/
def draws : Action → List UUID
  | submit _ _ _ id _ => [id]
  | createSchedule sched => [sched.id]
  | tryClaim _ _ token _ runID _ => [token, runID]
  | exec _ id _ => [id]
  | _ => []

/-- The storage call an action makes, if any. -/
def op (env : Nat → Env) (w : World) : Action → Option Op
  | submit _ tenantID req id clock => some (.insertJob (submittedJob tenantID req id clock))
  | cancelJob jobID tenantID => some (.cancelJob jobID tenantID)
  | replayJob _ jobID tenantID => some (.replayJob jobID tenantID)
  | createSchedule sched => some (.insertSchedule sched)
  | deleteSchedule id tenantID => some (.deleteSchedule id tenantID)
  | cmdForceFail jobID => some (.cmdForceFail jobID)
  | tryClaim jobID workerID token deadline runID clock =>
    some (.tryClaim jobID workerID token deadline runID clock)
  | markRunning c => some (.markRunning c.jobID c.token)
  | extendDeadline c deadline => some (.extendDeadline c.jobID c.token deadline)
  | completeRow c clock => some (.completeRow c.jobID c.token clock)
  | completeRun c clock => some (.completeRun c.runID clock)
  | failJob c errMsg nextRunAt clock =>
    some (.failJob c.jobID c.runID c.token errMsg nextRunAt clock)
  | exec thread id clock => (w.threads thread).head?.bind fun task =>
    task.op (env thread) id clock w.now
  | tick _ | cmdReplay .. | abandon .. | poll .. | expandCron .. | drop _ | crash _
  | loseRedis _ => none

/-- The thread whose remaining work an action changes, with what is left to do. -/
def assigns (env : Nat → Env) (w : World) : Action → Option (Nat × List Task)
  | submit thread tenantID req id clock =>
    let j := submittedJob tenantID req id clock
    if (insertJob j w.db).1.isOk && j.state == .pending then some (thread, [.queue j]) else none
  | replayJob thread jobID tenantID =>
    match (Sluice.replayJob jobID tenantID w.db).1 with
    | .ok j => some (thread, [.enqueue tenantID jobID j.priority])
    | .error _ => none
  | cmdReplay thread jobID =>
    match w.db.jobs.find? jobID with
    | some j => if j.state == .dead then some (thread, [.replay j]) else none
    | none => none
  | poll thread scan batch => some (thread, batch.map scan.task)
  | expandCron thread batch => some (thread, batch.map .fire)
  | exec thread id clock =>
    match w.threads thread with
    | task :: rest => some (thread, task.followUps (env thread) id clock w.now w.db ++ rest)
    | [] => none
  | drop thread => some (thread, (w.threads thread).tail)
  | crash thread => some (thread, [])
  | _ => none

/-- The claims that workers know of after an action. -/
def claims (w : World) : Action → List Claim
  | tryClaim jobID workerID token deadline runID clock =>
    match (Sluice.tryClaim jobID workerID token deadline runID clock w.db).1 with
    | some runID => ⟨jobID, token, runID⟩ :: w.claims
    | none => w.claims
  | _ => w.claims

/-- The completions under way after an action. -/
def completing (w : World) : Action → List (Claim × Time)
  | completeRow c clock =>
    if (Sluice.completeRow c.jobID c.token clock w.db).1 == 0 then w.completing
    else (c, clock) :: w.completing
  | completeRun c clock | abandon c clock => w.completing.erase (c, clock)
  | _ => w.completing

/-- The Redis lists after an action. -/
def redis (w : World) : Action → Redis
  | exec thread _ _ => ((w.threads thread).head?.elim id Task.push) w.redis
  | loseRedis redis => redis
  | _ => w.redis

end Action

/-- The system after an action. -/
def World.step (env : Nat → Env) (w : World) (a : Action) : World where
  now := match a with
    | .tick later => later
    | _ => w.now
  db := (a.op env w).elim w.db fun op => op.apply w.db
  redis := a.redis w
  drawn := a.draws ++ w.drawn
  claims := a.claims w
  completing := a.completing w
  threads := match a.assigns env w with
    | some (thread, tasks) => Function.update w.threads thread tasks
    | none => w.threads

/--
When an action can happen.

A request or a pass needs an idle thread, and workers only use what their own claims gave them.
-/
def Action.Enabled (w : World) : Action → Prop
  | tick later => w.now ≤ later
  | submit thread _ _ id clock => w.threads thread = [] ∧ id ∉ w.drawn ∧ clock ≤ w.now
  | replayJob thread _ _ => w.threads thread = []
  | cmdReplay thread _ => w.threads thread = []
  | createSchedule sched => sched.id ∉ w.drawn
  | tryClaim _ _ token _ runID clock =>
    token ∉ w.drawn ∧ runID ∉ w.drawn ∧ token ≠ runID ∧ clock ≤ w.now
  | markRunning c => c ∈ w.claims
  | extendDeadline c _ => c ∈ w.claims
  | completeRow c clock => c ∈ w.claims ∧ clock ≤ w.now
  | completeRun c clock => (c, clock) ∈ w.completing
  | abandon c clock => (c, clock) ∈ w.completing
  | failJob c _ _ clock => c ∈ w.claims ∧ clock ≤ w.now
  | poll thread scan batch =>
    w.threads thread = [] ∧ (scan.query w.now).Answers w.db.jobs.rows batch
  | expandCron thread batch =>
    w.threads thread = [] ∧
      (getDueSchedules cronBatchSize w.now).Answers w.db.schedules.rows batch
  | exec thread id clock => id ∉ w.drawn ∧ clock ≤ w.now ∧ w.threads thread ≠ []
  | cancelJob .. | deleteSchedule .. | cmdForceFail _ | drop _ | crash _ | loseRedis _ => True

/-- One step of the system. -/
def Next (env : Nat → Env) (w : World) (a : Action) (w' : World) : Prop :=
  a.Enabled w ∧ w' = w.step env a

/-- The runs of the system, from empty tables at any time. -/
def Reaches (env : Nat → Env) (past : List (Step World Action)) (w : World) : Prop :=
  ∃ start, Run (Next env) (World.init start) past w

end Sluice
