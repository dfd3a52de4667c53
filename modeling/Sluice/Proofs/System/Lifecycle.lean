import Sluice.Proofs.System.Overlap
import Sluice.Proofs.System.Outcomes
import Sluice.Proofs.System.Scheduled

/-! The states that a job goes through, as the running system has them. -/

namespace Sluice

open Transition

/-- From one state to the next, where a job that is not stored has no state. -/
def lifecycle : List (Option State × Option State) :=
  [(none, some .pending), (none, some .scheduled),
    (some .scheduled, some .pending), (some .pending, some .claimed),
    -- A worker goes on when it could not mark the job as running.
    (some .claimed, some .running), (some .claimed, some .succeeded),
    (some .running, some .succeeded), (some .claimed, some .failed), (some .running, some .failed),
    -- Attempts that were the last one, and jobs failed by force.
    (some .claimed, some .dead), (some .running, some .dead), (some .pending, some .dead),
    (some .failed, some .dead),
    -- The reaper puts jobs back at once, without a state in between.
    (some .claimed, some .pending), (some .running, some .pending),
    (some .failed, some .pending), (some .dead, some .pending),
    (some .pending, none), (some .scheduled, none)]

/-- The state of a job, if it is stored. -/
def Crew.stateOf (s : Crew) (k : UUID) : Option State := (s.world.db.jobs.find? k).map Job.state

/-- Jobs begin in one of two states. -/
theorem Op.Issued.born {j : Job} (issued : (Op.insertJob j).Issued) :
    j.state = .pending ∨ j.state = .scheduled := by
  rcases issued with ⟨tenantID, req, id, now, rfl⟩ | ⟨sched, template, id, now, rfl⟩
  · simp only [submittedJob]
    split <;> simp
  · exact .inl rfl

/-- A call that changes the state of a job goes along one of the edges. -/
theorem RowStep.lifecycle {k : UUID} {op : Op} {before after : Option Job}
    (step : RowStep k op before after) (issued : op.Issued)
    (changed : before.map Job.state ≠ after.map Job.state) :
    (before.map Job.state, after.map Job.state) ∈ Sluice.lifecycle := by
  cases step with
  | keep => exact absurd rfl changed
  | extend => exact absurd rfl changed
  | insert =>
    rcases issued.born with born | born <;> simp [Job.inserted, born, Sluice.lifecycle]
  | claim waiting => simp [claimRow, waiting, Sluice.lifecycle]
  | start held fresh => simp [fresh, Sluice.lifecycle]
  | complete held live | completeRow held live =>
    rcases (State.inFlight_iff _).mp live with live | live <;>
      simp [succeedRow, live, Sluice.lifecycle]
  | fail held live =>
    rcases (State.inFlight_iff _).mp live with live | live <;>
      simp only [failRow, failState, live, Option.map_some] <;> split <;> simp [Sluice.lifecycle]
  | requeue late =>
    simp only [Job.expired, Bool.and_eq_true] at late
    rcases (State.inFlight_iff _).mp late.1 with live | live <;>
      simp only [requeueRow, live, Option.map_some] <;> split <;> simp [Sluice.lifecycle]
  | promoteScheduled waiting | promoteFailed waiting => simp [waiting, Sluice.lifecycle]
  | cancel waiting => rcases waiting with waiting | waiting <;> simp [waiting, Sluice.lifecycle]
  | replay dead | cmdReplay dead => simp [dead, replayRow, Sluice.lifecycle]
  | @forceFail row unspared =>
    simp only [forceFailRow, Option.map_some]
    cases is : row.state <;> simp_all [Sluice.lifecycle]

/-- A step of the system with its workers changes states along the edges only. -/
theorem Crew.step_lifecycle (env : Nat → Env) (s : Crew) (a : CrewAction) (k : UUID)
    (changed : s.stateOf k ≠ (s.step env a).stateOf k) :
    (s.stateOf k, (s.step env a).stateOf k) ∈ lifecycle := by
  unfold Crew.stateOf at changed ⊢
  cases called : a.action s with
  | none =>
    simp only [Crew.step, called, Option.elim_none] at changed
    exact absurd rfl changed
  | some b =>
    simp only [Crew.step, called, Option.elim_some] at changed ⊢
    rcases World.step_row env s.world b k with same | ⟨op, made, step⟩
    · exact absurd (by rw [same]) changed
    · exact step.lifecycle (Action.op_issued made) changed

/-- All rows, which a pass finds if they are due. -/
def rowsAfter (actions : List CrewAction) : List Job :=
  (afterCrew (fun _ => .everyMinute) 0 actions).world.db.jobs.rows

/-- A worker carries out a job that it could not mark as running, with a status as the answer. -/
def unmarked (status : Nat) : List CrewAction :=
  [.system (.submit 0 7 .hook 1 0), .claim 0 1 "w" 21 11 0 0, .getJob 0,
    .markRunning 0 false, .system (.tick (8 * second)), .execute 0 (.answering status) false,
    .record 0 { failedDraw with web := .answering status } true]

/-- A job fails, and an operator fails it by force again and again. -/
def forced : List CrewAction :=
  failedExecution 3 ++ [.record 0 failedDraw true, .system (.cmdForceFail 1),
    .system (.replayJob 1 1 7), .system (.cmdForceFail 1), .system (.replayJob 2 1 7),
    .claim 0 1 "w" 22 12 (8 * second) (8 * second), .system (.cmdForceFail 1),
    .system (.replayJob 3 1 7), .claim 1 1 "w" 23 13 (8 * second) (8 * second), .getJob 1,
    .markRunning 1 true, .system (.cmdForceFail 1), .system (.replayJob 4 1 7),
    .system (.cancelJob 1 7)]

/-- A claimed job is reaped. -/
def reaped : List CrewAction :=
  let before := [.system (.submit 0 7 .hook 1 0),
    .claim 0 1 "w" 21 11 0 0, .system (.tick (61 * second))]
  before ++ [.system (.poll 1 .reapStaleClaims (rowsAfter before)),
    .system (.exec 1 31 (61 * second))]

/-- A failed job is due again. -/
def retried : List CrewAction :=
  let before := unmarked 500 ++ [.system (.tick (200 * second))]
  before ++ [.system (.poll 1 .pollFailedJobs (rowsAfter before)),
    .system (.exec 1 31 (200 * second))]

/-- A delayed job is due. -/
def delayed : List CrewAction :=
  let before := [.system (.submit 0 7 delayedRequest 1 0), .system (.tick 100)]
  before ++ [.system (.poll 1 .pollScheduledJobs (rowsAfter before)), .system (.exec 1 31 100)]

/-- Runs that together go along every edge. -/
def lives : List (List CrewAction) :=
  [unmarked 200, forced, reaped, retried, delayed, overlapRun, answeredRun,
    [.system (.submit 0 7 delayedRequest 1 0), .system (.cancelJob 1 7)]]

/-- Whether one of the runs goes from one state of the job to another, by steps that can be made. -/
def lived (change : Option State × Option State) : Bool :=
  lives.any fun actions =>
    let steps := crewTrace (fun _ => .everyMinute) 0 actions
    steps.all (fun e => e.label.check e.pre) &&
      steps.any fun e => decide ((e.pre.stateOf 1, e.post.stateOf 1) = change)

theorem all_lived : ∀ change ∈ lifecycle, lived change = true := by decide +kernel

theorem lifecycle_changes : ∀ change ∈ lifecycle, change.1 ≠ change.2 := by decide

/-- The edges are exactly the changes of state that the running system can make. -/
theorem lifecycle_iff (before after : Option State) :
    (∃ env past s e k, Crew.Reaches env past s ∧ e ∈ past ∧ e.pre.stateOf k = before ∧
        e.post.stateOf k = after ∧ before ≠ after) ↔
      (before, after) ∈ lifecycle := by
  constructor
  · rintro ⟨env, past, s, e, k, reached, listed, rfl, rfl, changed⟩
    obtain ⟨start, run⟩ := reached
    obtain ⟨-, made⟩ := (run.of_mem listed).2
    rw [made] at changed ⊢
    exact Crew.step_lifecycle env e.pre e.label k changed
  · intro edge
    have found := all_lived _ edge
    simp only [lived, List.any_eq_true, Bool.and_eq_true] at found
    obtain ⟨actions, -, admissible, e, listed, goes⟩ := found
    obtain ⟨rfl, rfl⟩ := Prod.ext_iff.mp (of_decide_eq_true goes)
    exact ⟨_, _, _, e, 1, reaches_crewTrace (fun _ => .everyMinute) 0 actions admissible, listed,
      rfl, rfl, lifecycle_changes _ edge⟩

end Sluice
