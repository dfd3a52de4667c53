import Sluice.Scheduler.Election
import Sluice.System.Trace

/-! The whole system with its schedulers, whose passes only leaders make. -/

namespace Sluice

open Coordination Transition

variable {service : Service}

/-- The loop that makes a pass over the jobs. -/
def Scan.loop : Scan → Loop
  -- Both polls are made by one loop, one after the other.
  | pollScheduledJobs | pollFailedJobs => .duePoll
  | reapStaleClaims => .staleReaper
  | promoteDeadJobs => .deadLetterPromoter
  | reconcilePending => .pendingReconciler

/-- The thread in which a scheduler runs a loop, an even one. -/
def loopThread (i : Nat) (loop : Loop) : Nat :=
  2 * (Loop.all.length * i + Loop.all.idxOf loop)

/-- The election and the system, which know nothing of each other. -/
structure Cluster (service : Service) where
  election : Election service
  world : World

/-- A cluster before its first step. -/
def Cluster.init (service : Service) (start : Time) : Cluster service :=
  ⟨.start service, .init start⟩

/-- A step of the election or of the system. -/
inductive ClusterAction where
  | election (a : ElectionAction)
  | system (a : Action)

/-- Whether a scheduler has started a loop that has not returned. -/
def Election.runs (s : Election service) (i : Nat) (loop : Loop) : Bool :=
  match (s.schedulers i).phase with
  | .leading _ running => running.contains loop
  | _ => false

namespace ClusterAction

/--
What the cluster asks for besides.

Passes are made by the loops of leaders, a loop returns between two passes, and requests and
commands have threads of their own.
-/
def Allowed (s : Cluster service) : ClusterAction → Prop
  | election (.scheduler i (.loopReturns loop)) => s.world.threads (loopThread i loop) = []
  | election _ => True
  | system (.poll thread scan _) =>
    ∃ i, thread = loopThread i scan.loop ∧ s.election.runs i scan.loop = true
  | system (.expandCron thread _) =>
    ∃ i, thread = loopThread i .cronExpander ∧ s.election.runs i .cronExpander = true
  | system (.submit thread ..) | system (.replayJob thread ..) | system (.cmdReplay thread _) =>
    thread % 2 = 1
  | system _ => True

/-- When a step can happen. -/
def Enabled (s : Cluster service) (a : ClusterAction) : Prop :=
  a.Allowed s ∧
    match a with
    | election b => (s.election.step? b).isSome = true
    | system b => b.Enabled s.world

end ClusterAction

/-- The cluster after a step. -/
def Cluster.step (env : Nat → Env) (s : Cluster service) : ClusterAction → Cluster service
  | .election a => { s with election := (s.election.step? a).getD s.election }
  | .system a => { s with world := s.world.step env a }

/-- One step of the cluster. -/
def Cluster.Next (env : Nat → Env) (s : Cluster service) (a : ClusterAction)
    (s' : Cluster service) : Prop :=
  a.Enabled s ∧ s' = s.step env a

/-- The runs of the cluster, from empty tables at any time. -/
def Cluster.Reaches (env : Nat → Env) (past : List (Step (Cluster service) ClusterAction))
    (s : Cluster service) : Prop :=
  ∃ start, Run (Cluster.Next env) (Cluster.init service start) past s

/-- The steps of the cluster on a list of actions. -/
def clusterTrace (service : Service) (env : Nat → Env) (start : Time)
    (actions : List ClusterAction) : List (Step (Cluster service) ClusterAction) :=
  trace (Cluster.step env) (Cluster.init service start) actions

/-- The cluster after a list of actions. -/
def afterCluster (service : Service) (env : Nat → Env) (start : Time)
    (actions : List ClusterAction) : Cluster service :=
  actions.foldl (Cluster.step env) (Cluster.init service start)

/-- Whether a thread is the one in which some leader runs a loop. -/
def Cluster.leads (s : Cluster service) (thread : Nat) (loop : Loop) : Bool :=
  let i := thread / (2 * Loop.all.length)
  thread == loopThread i loop && s.election.runs i loop

/-- Whether the cluster allows a step. -/
def ClusterAction.allows (s : Cluster service) : ClusterAction → Bool
  | election (.scheduler i (.loopReturns loop)) => s.world.threads (loopThread i loop) == []
  | election _ => true
  | system (.poll thread scan _) => s.leads thread scan.loop
  | system (.expandCron thread _) => s.leads thread .cronExpander
  | system (.submit thread ..) | system (.replayJob thread ..) | system (.cmdReplay thread _) =>
    thread % 2 == 1
  | system _ => true

/-- Whether a step can happen, with the queries of the system answered in storage order. -/
def ClusterAction.check (s : Cluster service) (a : ClusterAction) : Bool :=
  a.allows s &&
    match a with
    | election b => (s.election.step? b).isSome
    | system b => b.check s.world

theorem Cluster.exists_of_leads {s : Cluster service} {thread : Nat} {loop : Loop}
    (leads : s.leads thread loop = true) :
    ∃ i, thread = loopThread i loop ∧ s.election.runs i loop = true := by
  rw [Cluster.leads, Bool.and_eq_true, beq_iff_eq] at leads
  exact ⟨_, leads⟩

/-- A checked step can happen. -/
theorem ClusterAction.enabled_of_check {s : Cluster service} {a : ClusterAction}
    (checked : a.check s = true) : a.Enabled s := by
  obtain ⟨allows, checked⟩ := Bool.and_eq_true_iff.mp checked
  cases a with
  | election b =>
    refine ⟨?_, checked⟩
    cases b with
    | expire => trivial
    | scheduler i c =>
      cases c with
      | loopReturns loop => exact eq_of_beq allows
      | _ => trivial
  | system b =>
    refine ⟨?_, Action.enabled_of_check checked⟩
    cases b with
    | poll | expandCron => exact Cluster.exists_of_leads allows
    | submit | replayJob | cmdReplay => exact eq_of_beq allows
    | _ => trivial

/-- Carrying out steps that pass their checks is a run. -/
theorem reaches_clusterTrace (service : Service) (env : Nat → Env) (start : Time)
    (actions : List ClusterAction)
    (checked : (clusterTrace service env start actions).all (fun e => e.label.check e.pre) = true) :
    Cluster.Reaches env (clusterTrace service env start actions)
      (afterCluster service env start actions) := by
  refine ⟨start, run_trace fun e listed => ⟨?_, (mem_trace listed).2⟩⟩
  exact ClusterAction.enabled_of_check (List.all_eq_true.mp checked e listed)

/-- The steps of the election. -/
def Cluster.electionSteps (past : List (Step (Cluster service) ClusterAction)) :
    List (Step (Election service) ElectionAction) :=
  past.filterMap <| Step.project Cluster.election fun e => match e.label with
    | .election a => some a
    | .system _ => none

/-- The steps of the system. -/
def Cluster.systemSteps (past : List (Step (Cluster service) ClusterAction)) :
    List (Step World Action) :=
  past.filterMap <| Step.project Cluster.world fun e => match e.label with
    | .election _ => none
    | .system a => some a

end Sluice
