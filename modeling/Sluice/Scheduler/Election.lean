import Mathlib.Logic.Function.Basic
import Sluice.Coordination.Service
import Sluice.Transition.Run

/-! How schedulers take turns: `Campaign` in a session each, and the loop of `Run` around it. -/

namespace Sluice

open Coordination Transition

/-- The loops that a leader runs side by side. -/
inductive Loop where
  | duePoll
  | staleReaper
  | deadLetterPromoter
  | cronExpander
  | pendingReconciler
  | partitionMaintainer
  deriving DecidableEq, Repr

/-- All of them. -/
def Loop.all : List Loop :=
  [duePoll, staleReaper, deadLetterPromoter, cronExpander, pendingReconciler, partitionMaintainer]

/-- Where a scheduler stands in `Run`. -/
inductive Phase where
  -- At the head of the loop.
  | standby
  -- `Campaign` is called, and has no session yet.
  | entering
  | campaigning (session : Nat)
  -- `Campaign` has returned, and some of the loops have not.
  | leading (session : Nat) (running : List Loop)
  -- All loops have returned, and `resign` has begun.
  | resigning (session : Nat)
  -- The session is about to be closed, after a resignation or a failed campaign.
  | closing (session : Nat) (failed : Bool)
  | returned
  deriving DecidableEq

/-- The session that a scheduler has open. -/
def Phase.session : Phase → Option Nat
  | campaigning session | leading session _ | resigning session | closing session _ => some session
  | standby | entering | returned => none

/-- A scheduler process. -/
structure Scheduler where
  phase : Phase
  -- Whether the context of `main` is cancelled.
  canceled : Bool
  -- Whether the context of the loops is cancelled on account of the session.
  sessionDone : Bool
  -- `SchedulerIsLeader`.
  isLeader : Bool
  deriving DecidableEq

/-- A scheduler that has just been started. -/
def Scheduler.start : Scheduler := ⟨.standby, false, false, false⟩

/-- Whether the context that `Campaign` has returned is cancelled. -/
def Scheduler.leaderDone (s : Scheduler) : Bool := s.canceled || s.sessionDone

/--
What a scheduler does next, with how its calls go.

A process that dies does nothing any more, and its session expires some time later.
-/
inductive SchedulerAction where
  -- A signal cancels the context.
  | signal
  -- The loop of `Run` looks at its context, and ends or goes on.
  | leave
  | enter
  -- `concurrency.NewSession`, which may fail.
  | newSession (result : Option Nat)
  -- `Campaign` of the election in the session.
  | campaign (ok : Bool)
  -- The session ends, for the client at least.
  | sessionDone
  | loopReturns (loop : Loop)
  -- `wg.Wait` returns.
  | wait
  -- Errors of these two are not looked at.
  | resign
  | close
  deriving DecidableEq

/-- The phase after an action, with what it means for the session, if the action is possible. -/
def Scheduler.move? (s : Scheduler) : SchedulerAction → Option (Phase × Option Event)
  | .signal => some (s.phase, none)
  | .leave =>
    match s.phase with
    | .standby => if s.canceled then some (.returned, none) else none
    | _ => none
  | .enter =>
    match s.phase with
    | .standby => if s.canceled then none else some (.entering, none)
    | _ => none
  | .newSession result =>
    match s.phase with
    | .entering =>
      match result with
      -- Any error ends `Run`, here and below.
      | none => some (.returned, none)
      | some session => some (.campaigning session, some (.opened session))
    | _ => none
  | .campaign ok =>
    match s.phase with
    | .campaigning session =>
      if ok then some (.leading session Loop.all, some (.won session))
      else some (.closing session true, none)
    | _ => none
  | .sessionDone =>
    match s.phase with
    | .leading session running => some (.leading session running, none)
    | _ => none
  | .loopReturns loop =>
    match s.phase with
    | .leading session running =>
      if loop ∈ running ∧ s.leaderDone = true then
        some (.leading session (running.erase loop), none)
      else none
    | _ => none
  | .wait =>
    match s.phase with
    | .leading session [] => some (.resigning session, none)
    | _ => none
  | .resign =>
    match s.phase with
    | .resigning session => some (.closing session false, some (.resigned session))
    | _ => none
  | .close =>
    match s.phase with
    | .closing session failed =>
      some (if failed then .returned else .standby, some (.closed session))
    | _ => none

/-- The scheduler after an action, with what it means for the session. -/
def Scheduler.step? (s : Scheduler) (a : SchedulerAction) : Option (Scheduler × Option Event) :=
  (s.move? a).map fun (phase, event) =>
    ({ phase
       canceled := s.canceled || a == .signal
       sessionDone := match a with
         | .sessionDone => true
         | .newSession _ => false
         | _ => s.sessionDone
       isLeader := match a with
         | .campaign ok => ok
         | .wait => false
         | _ => s.isLeader }, event)

/-- A service that holds elections, and the schedulers that take part in one. -/
structure Election (service : Service) where
  state : service.State
  schedulers : Nat → Scheduler

/-- What happens next in an election. -/
inductive ElectionAction where
  | scheduler (i : Nat) (a : SchedulerAction)
  -- The session that a scheduler has open expires, which the scheduler may not know.
  | expire (i : Nat)
  deriving DecidableEq

section

variable {service : Service}

/-- An election before the first scheduler takes a step. -/
def Election.start (service : Service) : Election service := ⟨service.start, fun _ => .start⟩

/-- The schedulers after an action, with what it means for a session. -/
def Election.turn? (s : Election service) :
    ElectionAction → Option ((Nat → Scheduler) × Option Event)
  | .scheduler i a => ((s.schedulers i).step? a).map fun (scheduler, event) =>
    (Function.update s.schedulers i scheduler, event)
  | .expire i => (s.schedulers i).phase.session.map fun session =>
    (s.schedulers, some (.expired session))

/-- The election after an action, if the service lets it happen. -/
def Election.step? (s : Election service) (a : ElectionAction) : Option (Election service) :=
  (s.turn? a).bind fun (schedulers, event) =>
    (event.elim (some s.state) (service.step? s.state)).map fun state => ⟨state, schedulers⟩

/-- What a step means for a session. -/
def Election.event (e : Step (Election service) ElectionAction) : Option Event :=
  (e.pre.turn? e.label).bind Prod.snd

/-- The runs of an election. -/
abbrev Elections (past : List (Step (Election service) ElectionAction)) (s : Election service) :
    Prop :=
  Run (fun s a s' => s.step? a = some s') (Election.start service) past s

end

end Sluice
