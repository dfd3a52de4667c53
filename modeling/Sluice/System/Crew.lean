import Sluice.System.Trace
import Sluice.Worker.Process

/-! The system with its workers, each of which goes through `process` step by step. -/

namespace Sluice

open Transition

/-- How far a worker has come in `process`. -/
inductive Stage where
  | idle
  -- The job is claimed and not yet read.
  | claimed (c : Claim)
  | read (c : Claim) (j : Job)
  -- The job is carried out, with the heartbeats beside it.
  | executing (c : Claim) (j : Job)
  | executed (c : Claim) (j : Job) (outcome : Except String Unit) (ended : Time)
  -- The first statement of `CompleteJob` has taken effect.
  | completing (c : Claim) (clock : Time)
  deriving DecidableEq

/-- The system, what each worker is doing, and what the workers have counted. -/
structure Crew where
  world : World
  stages : Nat → Stage
  -- The claims with heartbeats, some of which may come late.
  beating : List Claim
  -- What the processes of the workers show, each of them what it has counted itself.
  metrics : List (Nat × Metric)

/-- The workers before the system takes its first step. -/
def Crew.init (start : Time) : Crew where
  world := .init start
  stages _ := .idle
  beating := []
  metrics := []

/-- The calls that only workers make. -/
def Action.ofWorker : Action → Bool
  | tryClaim .. | markRunning _ | extendDeadline .. | completeRow .. | completeRun ..
  | abandon .. | failJob .. => true
  | _ => false

/-- The first transaction of the call that records an outcome. -/
def JobCall.action : JobCall → Option Action
  | failJob jobID runID token errMsg nextRunAt now =>
    some (.failJob ⟨jobID, token, runID⟩ errMsg nextRunAt now)
  | completeJob jobID runID token now => some (.completeRow ⟨jobID, token, runID⟩ now)
  | _ => none

/-- One step of a worker or of anybody else. -/
inductive CrewAction where
  | system (a : Action)
  -- `TryClaim`, with the clock when the deadline is set and when the claim is made.
  | claim (worker : Nat) (jobID : UUID) (workerID : String) (token runID : UUID)
      (began clock : Time)
  | getJob (worker : Nat)
  -- A call that fails leaves no trace, here and below.
  | markRunning (worker : Nat) (succeeds : Bool)
  | heartbeat (c : Claim) (clock : Time)
  | execute (worker : Nat) (web : Web) (canceled : Bool)
  | record (worker : Nat) (d : ProcessDraw) (succeeds : Bool)
  | completeRun (worker : Nat)
  -- The worker dies, or an error makes it leave `process`.
  | stop (worker : Nat) (dies : Bool)

namespace CrewAction

/-- The call that records an outcome, and what is counted with it. -/
def recorded (c : Claim) (j : Job) (outcome : Except String Unit) (d : ProcessDraw) :
    JobCall × List Metric :=
  recording c.jobID j outcome { d with token := c.token, runID := c.runID }

/-- The action of the system, if the step is one. -/
def action (s : Crew) : CrewAction → Option Action
  | system a => some a
  | claim _ jobID workerID token runID began clock =>
    some (.tryClaim jobID workerID token (began + (visibilityTimeout + 30 * second)) runID clock)
  | markRunning worker succeeds =>
    match s.stages worker with
    | .read c _ => if succeeds then some (.markRunning c) else none
    | _ => none
  | heartbeat c clock => some (.extendDeadline c (clock + heartbeatTTL))
  | record worker d succeeds =>
    match s.stages worker with
    | .executed c j outcome _ => if succeeds then (recorded c j outcome d).1.action else none
    | _ => none
  | completeRun worker =>
    match s.stages worker with
    | .completing c clock => some (.completeRun c clock)
    | _ => none
  | getJob _ | execute .. | stop .. => none

/-- The worker that moves on, with where it gets to. -/
def stage (s : Crew) : CrewAction → Option (Nat × Stage)
  | claim worker jobID workerID token runID began clock =>
    (tryClaim jobID workerID token (began + (visibilityTimeout + 30 * second)) runID clock
      s.world.db).1.map fun runID => (worker, .claimed ⟨jobID, token, runID⟩)
  | getJob worker =>
    match s.stages worker with
    | .claimed c =>
      match Sluice.getJob c.jobID s.world.db.jobs with
      | .ok j => some (worker, .read c j)
      | .error _ => some (worker, .idle)
    | _ => none
  | markRunning worker _ =>
    match s.stages worker with
    | .read c j => some (worker, .executing c j)
    | _ => none
  | execute worker web canceled =>
    match s.stages worker with
    | .executing c j =>
      some (worker, .executed c j (Sluice.execute web canceled j) s.world.now)
    | _ => none
  | record worker d succeeds =>
    match s.stages worker with
    | .executed c _ (.ok ()) _ =>
      -- A stale worker is done after the first statement.
      if succeeds && (completeRow c.jobID c.token d.recordedAt s.world.db).1 != 0 then
        some (worker, .completing c d.recordedAt)
      else some (worker, .idle)
    | _ => some (worker, .idle)
  | completeRun worker | stop worker _ => some (worker, .idle)
  | system _ | heartbeat .. => none

/-- What a step counts. -/
def counts (s : Crew) : CrewAction → List Metric
  | markRunning .. => [.workerInFlight 1]
  | execute .. => [.workerInFlight (-1)]
  | record worker d _ =>
    match s.stages worker with
    -- The outcome is counted before it is recorded.
    | .executed c j outcome _ => (recorded c j outcome d).2
    | _ => []
  | _ => []

/-- What the workers show after a step. -/
def metrics (s : Crew) (a : CrewAction) : List (Nat × Metric) :=
  match a with
  | markRunning worker _ | execute worker _ _ | record worker _ _ =>
    s.metrics ++ (a.counts s).map (worker, ·)
  -- The counters are in the memory of the process.
  | stop worker true => s.metrics.filter (·.1 != worker)
  | _ => s.metrics

/-- The claims with heartbeats after a step. -/
def beats (s : Crew) : CrewAction → List Claim
  | markRunning worker _ =>
    match s.stages worker with
    | .read c _ => c :: s.beating
    | _ => s.beating
  | _ => s.beating

/-- Whether a worker has come to the step, and its clock readings are in order. -/
def ready (s : Crew) : CrewAction → Bool
  | system a => !a.ofWorker
  | claim worker _ _ _ _ began clock =>
    match s.stages worker with
    | .idle => decide (began ≤ clock)
    | _ => false
  | getJob worker =>
    match s.stages worker with
    | .claimed _ => true
    | _ => false
  | markRunning worker _ =>
    match s.stages worker with
    | .read _ _ => true
    | _ => false
  | heartbeat c clock => s.beating.contains c && decide (clock ≤ s.world.now)
  | execute worker _ _ =>
    match s.stages worker with
    | .executing _ _ => true
    | _ => false
  | record worker d _ =>
    match s.stages worker with
    | .executed _ _ _ ended =>
      decide (ended ≤ d.executedAt ∧ d.executedAt ≤ d.recordedAt ∧ d.recordedAt ≤ s.world.now)
    | _ => false
  | completeRun worker =>
    match s.stages worker with
    | .completing _ _ => true
    | _ => false
  | stop .. => true

/-- When a step can happen. -/
def Enabled (s : Crew) (a : CrewAction) : Prop :=
  a.ready s = true ∧ ∀ b, a.action s = some b → b.Enabled s.world

end CrewAction

/-- The workers and the system after a step. -/
def Crew.step (env : Nat → Env) (s : Crew) (a : CrewAction) : Crew where
  world := (a.action s).elim s.world (s.world.step env)
  stages := (a.stage s).elim s.stages fun moved => Function.update s.stages moved.1 moved.2
  beating := a.beats s
  metrics := a.metrics s

/-- One step of the system with its workers. -/
def Crew.Next (env : Nat → Env) (s : Crew) (a : CrewAction) (s' : Crew) : Prop :=
  a.Enabled s ∧ s' = s.step env a

/-- The runs of the system with its workers, from empty tables at any time. -/
def Crew.Reaches (env : Nat → Env) (past : List (Step Crew CrewAction)) (s : Crew) : Prop :=
  ∃ start, Run (Crew.Next env) (Crew.init start) past s

/-- The steps of the system with its workers on a list of actions. -/
def crewTrace (env : Nat → Env) (start : Time) (actions : List CrewAction) :
    List (Step Crew CrewAction) :=
  trace (Crew.step env) (Crew.init start) actions

/-- The system with its workers after a list of actions. -/
def afterCrew (env : Nat → Env) (start : Time) (actions : List CrewAction) : Crew :=
  actions.foldl (Crew.step env) (Crew.init start)

/-- Whether a step can happen, with the queries of the system answered in storage order. -/
def CrewAction.check (s : Crew) (a : CrewAction) : Bool :=
  a.ready s && (a.action s).all fun b => b.check s.world

/-- A checked step can happen. -/
theorem CrewAction.enabled_of_check {s : Crew} {a : CrewAction} (checked : a.check s = true) :
    a.Enabled s := by
  simp only [check, Bool.and_eq_true, Option.all_eq_true] at checked
  exact ⟨checked.1, fun b called => Action.enabled_of_check (checked.2 b called)⟩

/-- Carrying out steps that pass their checks is a run. -/
theorem reaches_crewTrace (env : Nat → Env) (start : Time) (actions : List CrewAction)
    (checked : (crewTrace env start actions).all (fun e => e.label.check e.pre) = true) :
    Crew.Reaches env (crewTrace env start actions) (afterCrew env start actions) := by
  refine ⟨start, run_trace fun e listed => ⟨?_, (mem_trace listed).2⟩⟩
  exact CrewAction.enabled_of_check (List.all_eq_true.mp checked e listed)

end Sluice
