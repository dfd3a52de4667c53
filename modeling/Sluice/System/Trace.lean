import Sluice.Proofs.Storage.Scans
import Sluice.System.World

/-! Runs of the system that can be computed, with queries answered in storage order. -/

namespace Sluice

open Relational Transition

/-- Whether an action can happen, with its query answered in storage order. -/
def Action.check (w : World) : Action → Bool
  | tick later => decide (w.now ≤ later)
  | submit thread _ _ id clock =>
    w.threads thread == [] && !w.drawn.contains id && decide (clock ≤ w.now)
  | replayJob thread _ _ => w.threads thread == []
  | cmdReplay thread _ => w.threads thread == []
  | createSchedule sched => !w.drawn.contains sched.id
  | tryClaim _ _ token _ runID clock =>
    !w.drawn.contains token && !w.drawn.contains runID && token != runID && decide (clock ≤ w.now)
  | markRunning c => w.claims.contains c
  | extendDeadline c _ => w.claims.contains c
  | completeRow c clock => w.claims.contains c && decide (clock ≤ w.now)
  | completeRun c clock => w.completing.contains (c, clock)
  | abandon c clock => w.completing.contains (c, clock)
  | failJob c _ _ clock => w.claims.contains c && decide (clock ≤ w.now)
  | poll thread scan batch =>
    w.threads thread == [] && batch == (scan.query w.now).run w.db.jobs.rows
  | expandCron thread batch =>
    w.threads thread == [] && batch == (getDueSchedules cronBatchSize w.now).run w.db.schedules.rows
  | exec thread id clock =>
    !w.drawn.contains id && decide (clock ≤ w.now) && w.threads thread != []
  | cancelJob .. | deleteSchedule .. | cmdForceFail _ | drop _ | crash _ | loseRedis _ => true

/-- A checked action can happen. -/
theorem Action.enabled_of_check {w : World} {a : Action} (checked : a.check w = true) :
    a.Enabled w := by
  -- The check evaluates the condition, and fixes the answer where there is a choice.
  cases a with
  | poll thread scan batch =>
    simp only [check, Bool.and_eq_true, beq_iff_eq] at checked
    exact ⟨checked.1, checked.2 ▸ scan.run_answers w.now w.db.jobs.rows⟩
  | expandCron thread batch =>
    simp only [check, Bool.and_eq_true, beq_iff_eq] at checked
    exact ⟨checked.1, checked.2 ▸ getDueSchedules_run_answers _ w.now w.db.schedules.rows⟩
  | cancelJob | deleteSchedule | cmdForceFail | drop | crash | loseRedis => trivial
  | _ => simpa [check, Enabled, and_assoc] using checked

/-- Carrying out actions that pass their checks is a run, from any world. -/
theorem run_of_check (env : Nat → Env) (w : World) (actions : List Action)
    (checked : (trace (World.step env) w actions).all (fun e => e.label.check e.pre) = true) :
    Run (Next env) w (trace (World.step env) w actions) (actions.foldl (World.step env) w) := by
  -- Each step of the trace is what the system makes of its action.
  refine run_trace fun e listed => ⟨?_, (mem_trace listed).2⟩
  exact Action.enabled_of_check (List.all_eq_true.mp checked e listed)

/-- The steps of carrying out a list of actions. -/
def worldTrace (env : Nat → Env) (start : Time) (actions : List Action) :
    List (Step World Action) :=
  trace (World.step env) (World.init start) actions

/-- The system after a list of actions. -/
def afterActions (env : Nat → Env) (start : Time) (actions : List Action) : World :=
  actions.foldl (World.step env) (World.init start)

/-- Carrying out actions that pass their checks is a run of the system. -/
theorem reaches_worldTrace (env : Nat → Env) (start : Time) (actions : List Action)
    (checked : (worldTrace env start actions).all (fun e => e.label.check e.pre) = true) :
    Reaches env (worldTrace env start actions) (afterActions env start actions) :=
  ⟨start, run_of_check env _ actions checked⟩

end Sluice
