import Sluice.Queue.Calls
import Sluice.System.Crew

/-! The workers with their loops, which take identifiers off the lists of Redis and clear them. -/

namespace Sluice

open Relational Transition

/-- What the loop of a worker is about. -/
inductive Errand where
  -- The lanes that the poll cycle has still to look at, none of them between two cycles.
  | scanning (lanes : List Lane)
  -- `Dequeue` has returned the identifier, and `process` has not claimed the job.
  | fetched (jobID : UUID)
  | working (jobID : UUID)
  -- `process` is about to call `RemoveFromProcessing`.
  | clearing (jobID : UUID)
  | gone
  deriving DecidableEq

/-- The identifier that a worker has in hand. -/
def Errand.inHand : Errand → Option UUID
  | scanning _ | gone => none
  | fetched jobID | working jobID | clearing jobID => some jobID

/-- The system with its workers, what their loops are about, and the tenants that they know of. -/
structure Plant where
  crew : Crew
  errands : Nat → Errand
  weights : Nat → List TenantWeight

/-- The lists of Redis. -/
def Plant.redis (s : Plant) : Redis := s.crew.world.redis

/-- The workers before they have loaded any tenants. -/
def Plant.init (start : Time) : Plant where
  crew := .init start
  errands _ := .scanning []
  weights _ := []

/-- A step of `process` after the claim. -/
inductive ProcessStep where
  | getJob
  | markRunning (succeeds : Bool)
  | execute (web : Web) (canceled : Bool)
  | record (d : ProcessDraw) (succeeds : Bool)
  | completeRun

/-- The step as one of a worker. -/
def ProcessStep.action (worker : Nat) : ProcessStep → CrewAction
  | getJob => .getJob worker
  | markRunning succeeds => .markRunning worker succeeds
  | execute web canceled => .execute worker web canceled
  | record d succeeds => .record worker d succeeds
  | completeRun => .completeRun worker

/-- One step of a worker's loop, or of anybody else. -/
inductive PlantAction where
  -- Everybody else, with the heartbeats.
  | crew (a : CrewAction)
  | loadTenants (worker : Nat) (answer : List Tenant)
  -- `Dequeue` begins a poll cycle.
  | poll (worker : Nat) (draws : List Int)
  -- One `LMOVE`, whose reply may get lost.
  | look (worker : Nat) (replied : Bool)
  -- `LMOVE` fails without an effect, so that `Dequeue` returns an error.
  | lookFails (worker : Nat)
  | claim (worker : Nat) (token runID : UUID) (began clock : Time)
  -- `TryClaim` fails without an effect.
  | claimFails (worker : Nat)
  -- The reply to `TryClaim` gets lost, or the second statement of `CompleteJob` fails.
  | callLost (worker : Nat)
  | proceed (worker : Nat) (step : ProcessStep)
  -- The query of `GetJob` fails.
  | unread (worker : Nat)
  | remove (worker : Nat) (succeeds : Bool)
  -- The worker leaves its loop, or it dies.
  | leave (worker : Nat)

namespace PlantAction

/--
The step as one of the system with its workers.

A command that a worker sends to Redis is a step that changes nothing but the lists.
-/
def action (name : Nat → String) (s : Plant) : PlantAction → Option CrewAction
  | crew a => some a
  | look worker _ =>
    match s.errands worker with
    | .scanning (lane :: _) =>
      some (.system (.loseRedis (Sluice.look (name worker) lane s.redis).2))
    | _ => none
  | claim worker token runID began clock =>
    match s.errands worker with
    | .fetched jobID => some (.claim worker jobID (name worker) token runID began clock)
    | _ => none
  | proceed worker step => some (step.action worker)
  | callLost worker | unread worker => some (.stop worker false)
  | leave worker => some (.stop worker true)
  | remove worker succeeds =>
    match s.errands worker with
    | .clearing jobID =>
      if succeeds then
        some (.system (.loseRedis (removeFromProcessing (name worker) jobID s.redis)))
      else none
    | _ => none
  | loadTenants .. | poll .. | lookFails _ | claimFails _ => none

/-- What the loop of a worker is about after a step of `process`. -/
def errandAfter (jobID : UUID) (step : ProcessStep) : Stage → Errand
  | .idle =>
    match step with
    -- A job that has gone is left in the processing list.
    | .getJob => .scanning []
    | _ => .clearing jobID
  | _ => .working jobID

/-- The worker whose loop moves on, with what it is about then. -/
def errand (env : Nat → Env) (name : Nat → String) (s : Plant) : PlantAction → Option (Nat × Errand)
  | poll worker draws =>
    (weightedShuffle draws (s.weights worker)).map fun order =>
      (worker, .scanning (scanLanes order))
  | look worker replied =>
    match s.errands worker with
    | .scanning (lane :: lanes) =>
      if replied then
        match (Sluice.look (name worker) lane s.redis).1 with
        | none => some (worker, .scanning lanes)
        -- The loop takes this identifier for the sign that nothing has arrived.
        | some id => some (worker, if id = UUID.nil then .scanning [] else .fetched id)
      else some (worker, .scanning [])
    | _ => none
  | lookFails worker => some (worker, .scanning [])
  | claim worker token runID began clock =>
    match s.errands worker with
    | .fetched jobID =>
      let after := s.crew.step env (.claim worker jobID (name worker) token runID began clock)
      some (worker, if after.stages worker = .idle then .clearing jobID else .working jobID)
    | _ => none
  | claimFails worker | callLost worker => (s.errands worker).inHand.map fun jobID =>
    (worker, .clearing jobID)
  | proceed worker step => (s.errands worker).inHand.map fun jobID =>
    (worker, errandAfter jobID step ((s.crew.step env (step.action worker)).stages worker))
  | unread worker | remove worker _ => some (worker, .scanning [])
  | leave worker => some (worker, .gone)
  | crew _ | loadTenants .. => none

/-- Whether a worker has come to the step. -/
def ready (s : Plant) : PlantAction → Bool
  | crew (.system _) | crew (.heartbeat ..) => true
  | crew _ => false
  | loadTenants .. => true
  | poll worker draws =>
    s.errands worker == .scanning [] && (weightedShuffle draws (s.weights worker)).isSome
  | look worker _ | lookFails worker =>
    match s.errands worker with
    | .scanning (_ :: _) => true
    | _ => false
  | claim worker _ _ _ _ | claimFails worker =>
    match s.errands worker with
    | .fetched _ => true
    | _ => false
  | proceed worker _ =>
    match s.errands worker with
    | .working _ => true
    | _ => false
  | callLost worker =>
    match s.errands worker, s.crew.stages worker with
    | .working _, .claimed _ | .working _, .completing .. => true
    | _, _ => false
  | unread worker =>
    match s.errands worker, s.crew.stages worker with
    | .working _, .claimed _ => true
    | _, _ => false
  | remove worker _ =>
    match s.errands worker with
    | .clearing _ => true
    | _ => false
  | leave _ => true

/-- When a step can happen. -/
def Enabled (tenants : Tenants) (name : Nat → String) (s : Plant) (a : PlantAction) : Prop :=
  a.ready s = true ∧ (∀ b, a.action name s = some b → b.Enabled s.crew) ∧
    ∀ worker answer, a = .loadTenants worker answer → getTenants.Answers tenants.rows answer

end PlantAction

/-- The workers and the system after a step. -/
def Plant.step (env : Nat → Env) (name : Nat → String) (s : Plant) (a : PlantAction) : Plant where
  crew := (a.action name s).elim s.crew (s.crew.step env)
  errands := (a.errand env name s).elim s.errands fun moved =>
    Function.update s.errands moved.1 moved.2
  weights := match a with
    | .loadTenants worker answer =>
      Function.update s.weights worker (Sluice.loadTenants answer)
    | _ => s.weights

/-- One step of the system with the loops of its workers. -/
def Plant.Next (env : Nat → Env) (tenants : Tenants) (name : Nat → String) (s : Plant)
    (a : PlantAction) (s' : Plant) : Prop :=
  a.Enabled tenants name s ∧ s' = s.step env name a

/-- Their runs, from empty tables and lists at any time. -/
def Plant.Reaches (env : Nat → Env) (tenants : Tenants) (name : Nat → String)
    (past : List (Step Plant PlantAction)) (s : Plant) : Prop :=
  ∃ start, Run (Plant.Next env tenants name) (Plant.init start) past s

/-- The steps that the system with its workers can see. -/
def Plant.crewSteps (name : Nat → String) (past : List (Step Plant PlantAction)) :
    List (Step Crew CrewAction) :=
  past.filterMap (Step.project Plant.crew fun e => e.label.action name e.pre)

/-- A run with the loops of the workers is one of the system with its workers. -/
theorem Plant.crew_run {env : Nat → Env} {tenants : Tenants} {name : Nat → String} {start : Time}
    {past : List (Step Plant PlantAction)} {s : Plant}
    (run : Run (Plant.Next env tenants name) (Plant.init start) past s) :
    Run (Crew.Next env) (Crew.init start) (Plant.crewSteps name past) s.crew := by
  refine run.project Plant.crew (fun e => e.label.action name e.pre) ?_
  rintro past s a s' - ⟨⟨-, enabled, -⟩, rfl⟩
  simp only
  cases called : a.action name s with
  | none => exact .inr ⟨rfl, by simp [Plant.step, called]⟩
  | some b => exact .inl ⟨b, rfl, enabled b called, by simp [Plant.step, called]⟩

/-- The steps of the loops on a list of actions. -/
def plantTrace (env : Nat → Env) (name : Nat → String) (start : Time)
    (actions : List PlantAction) : List (Step Plant PlantAction) :=
  trace (Plant.step env name) (Plant.init start) actions

/-- The workers and the system after a list of actions. -/
def afterPlant (env : Nat → Env) (name : Nat → String) (start : Time)
    (actions : List PlantAction) : Plant :=
  actions.foldl (Plant.step env name) (Plant.init start)

/-- Whether a step can happen, with the queries answered in storage order. -/
def PlantAction.check (tenants : Tenants) (name : Nat → String) (s : Plant) (a : PlantAction) :
    Bool :=
  a.ready s && ((a.action name s).all fun b => b.check s.crew) &&
    match a with
    | loadTenants _ answer => answer == getTenants.run tenants.rows
    | _ => true

/-- A checked step can happen. -/
theorem PlantAction.enabled_of_check {tenants : Tenants} {name : Nat → String} {s : Plant}
    {a : PlantAction} (checked : a.check tenants name s = true) : a.Enabled tenants name s := by
  obtain ⟨front, loaded⟩ := Bool.and_eq_true_iff.mp checked
  obtain ⟨ready, called⟩ := Bool.and_eq_true_iff.mp front
  refine ⟨ready, fun b seen => ?_, ?_⟩
  · rw [seen] at called
    exact CrewAction.enabled_of_check called
  · rintro worker answer rfl
    rw [eq_of_beq loaded]
    exact getTenants.run_answers tenants.rows (fun _ _ => .inl rfl) fun _ _ _ _ _ => rfl

/-- Carrying out steps that pass their checks is a run. -/
theorem reaches_plantTrace (env : Nat → Env) (tenants : Tenants) (name : Nat → String)
    (start : Time) (actions : List PlantAction)
    (checked : (plantTrace env name start actions).all
      (fun e => e.label.check tenants name e.pre) = true) :
    Plant.Reaches env tenants name (plantTrace env name start actions)
      (afterPlant env name start actions) := by
  refine ⟨start, run_trace fun e listed => ⟨?_, (mem_trace listed).2⟩⟩
  exact PlantAction.enabled_of_check (List.all_eq_true.mp checked e listed)

end Sluice
