import Sluice.Proofs.System.Frames
import Sluice.System.Crew

/-! What a worker has read of its job is still true while the job carries the worker's token. -/

namespace Sluice

open Relational Transition

variable {env : Nat → Env} {s : Crew} {a : CrewAction}

/-- A step of the workers as the system sees it. -/
def Crew.worldStep : Step Crew CrewAction → Option (Step World Action) :=
  Step.project Crew.world fun e => e.label.action e.pre

/-- The workers' steps are steps of the system, or they leave it alone. -/
theorem Crew.Reaches.world {past : List (Step Crew CrewAction)} (run : Crew.Reaches env past s) :
    Sluice.Reaches env (past.filterMap Crew.worldStep) s.world := by
  obtain ⟨start, run⟩ := run
  refine ⟨start, run.project Crew.world (fun e => e.label.action e.pre) ?_⟩
  rintro past s a s' - ⟨⟨-, enabled⟩, rfl⟩
  -- Steps that only move a worker are left out.
  cases called : a.action s with
  | none => exact .inr ⟨rfl, by simp [Crew.step, called]⟩
  | some b => exact .inl ⟨b, rfl, enabled b called, by simp [Crew.step, called]⟩

/-- The storage call that a step makes. -/
def Crew.op (env : Nat → Env) (e : Step Crew CrewAction) : Option Op :=
  (e.label.action e.pre).bind fun b => b.op env e.pre.world

/-- The claim that a worker works on. -/
def Stage.claim : Stage → Option Claim
  | idle => none
  | claimed c | read c _ | executing c _ | executed c _ _ _ | completing c _ => some c

/-- The job as a worker has read it, with its claim. -/
def Stage.snapshot : Stage → Option (Claim × Job)
  | read c j | executing c j | executed c j _ _ => some (c, j)
  | _ => none

/-- The row still says what decides about another attempt. -/
structure Job.Agrees (row j : Job) : Prop where
  attempt : row.attempt = j.attempt
  maxRetries : row.maxRetries = j.maxRetries
  backoffSeconds : row.backoffSeconds = j.backoffSeconds

/-- A row with a token has just been claimed with it, or it had the token and agrees. -/
theorem RowStep.held_inv {k : UUID} {op : Op} {before : Option Job} {row : Job}
    (step : RowStep k op before (some row)) {token : UUID} (held : row.claimToken = some token) :
    (∃ workerID deadline runID now, op = .tryClaim k workerID token deadline runID now) ∨
      ∃ old, before = some old ∧ old.claimToken = some token ∧ row.Agrees old := by
  cases step with
  | keep => exact .inr ⟨row, rfl, held, rfl, rfl, rfl⟩
  | claim =>
    -- The claim writes its own token over whatever was there.
    simp only [claimRow, Option.some.injEq] at held
    rw [held]
    exact .inl ⟨_, _, _, _, rfl⟩
  | start | extend | promoteScheduled | promoteFailed =>
    exact .inr ⟨_, rfl, held, rfl, rfl, rfl⟩
  -- Every other effect clears the token.
  | _ => cases held

/-- A token that was drawn before a step was in the row before, and the row agrees. -/
theorem World.held_row {w : World} {b : Action} (enabled : b.Enabled w) {k token : UUID} {row : Job}
    (drawn : token ∈ w.drawn) (stored : (w.step env b).db.jobs.find? k = some row)
    (held : row.claimToken = some token) :
    ∃ old, w.db.jobs.find? k = some old ∧ old.claimToken = some token ∧ row.Agrees old := by
  rcases World.step_row env w b k with same | ⟨op, called, step⟩
  · exact ⟨row, same ▸ stored, held, rfl, rfl, rfl⟩
  · rw [stored] at step
    rcases step.held_inv held with ⟨workerID, deadline, runID, now, rfl⟩ | kept
    · -- A claim draws a new token.
      cases Action.makes called with
      | tryClaim => exact absurd drawn enabled.1
    · exact kept

/-- The same for a step of the workers. -/
theorem Crew.held_row (enabled : a.Enabled s) {k token : UUID} {row : Job}
    (drawn : token ∈ s.world.drawn) (stored : (s.step env a).world.db.jobs.find? k = some row)
    (held : row.claimToken = some token) :
    ∃ old, s.world.db.jobs.find? k = some old ∧ old.claimToken = some token ∧ row.Agrees old := by
  cases called : a.action s with
  | none =>
    -- A call that fails has not reached the database.
    simp only [Crew.step, called, Option.elim_none] at stored
    exact ⟨row, stored, held, rfl, rfl, rfl⟩
  | some b =>
    simp only [Crew.step, called, Option.elim_some] at stored
    exact World.held_row (enabled.2 b called) drawn stored held

/-- Identifiers stay drawn. -/
theorem Crew.drawn_step {id : UUID} (drawn : id ∈ s.world.drawn) :
    id ∈ (s.step env a).world.drawn := by
  cases called : a.action s with
  | none => simpa [Crew.step, called] using drawn
  | some b => simpa [Crew.step, called] using World.drawn_step drawn

/-- A worker is where it was, or the step has brought it there. -/
theorem Crew.stage_step (env : Nat → Env) (s : Crew) (a : CrewAction) (worker : Nat) :
    (s.step env a).stages worker = s.stages worker ∨
      a.stage s = some (worker, (s.step env a).stages worker) := by
  cases moved : a.stage s with
  | none => simp [Crew.step, moved]
  | some pair =>
    obtain ⟨actor, st⟩ := pair
    by_cases own : worker = actor
    · subst own
      simp [Crew.step, moved]
    · simp [Crew.step, moved, own]

/-- How a worker can move on. -/
inductive Moves (s : Crew) : CrewAction → Nat → Stage → Prop where
  | claim {worker : Nat} {jobID token runID id : UUID} {workerID : String} {began clock : Time} :
      Moves s (.claim worker jobID workerID token runID began clock) worker
        (.claimed ⟨jobID, token, id⟩)
  | read {worker : Nat} {c : Claim} {j : Job} (before : s.stages worker = .claimed c)
      (found : s.world.db.jobs.find? c.jobID = some j) :
      Moves s (.getJob worker) worker (.read c j)
  | start {worker : Nat} {c : Claim} {j : Job} {succeeds : Bool}
      (before : s.stages worker = .read c j) :
      Moves s (.markRunning worker succeeds) worker (.executing c j)
  | finish {worker : Nat} {c : Claim} {j : Job} {web : Web} {canceled : Bool}
      (before : s.stages worker = .executing c j) :
      Moves s (.execute worker web canceled) worker
        (.executed c j (execute web canceled j) s.world.now)
  | complete {worker : Nat} {c : Claim} {j : Job} {ended : Time} {d : ProcessDraw} {succeeds : Bool}
      (before : s.stages worker = .executed c j (.ok ()) ended) :
      Moves s (.record worker d succeeds) worker (.completing c d.recordedAt)
  | leave {a : CrewAction} {worker : Nat} : Moves s a worker .idle

/-- Every move of a worker is one of those. -/
theorem CrewAction.moves {worker : Nat} {st : Stage} (moved : a.stage s = some (worker, st)) :
    Moves s a worker st := by
  cases a with
  | claim =>
    obtain ⟨id, -, same⟩ := Option.map_eq_some_iff.mp moved
    cases same
    exact .claim
  | getJob actor =>
    simp only [CrewAction.stage, Sluice.getJob] at moved
    split at moved
    · rename_i c before
      cases found : s.world.db.jobs.find? c.jobID with
      | none =>
        -- The job has gone, so the worker gives up.
        rw [found] at moved
        cases moved
        exact .leave
      | some j =>
        rw [found] at moved
        cases moved
        exact .read before found
    · cases moved
  | markRunning | execute =>
    simp only [CrewAction.stage] at moved
    split at moved
    · cases moved
      constructor
      assumption
    · cases moved
  | record =>
    -- Only a completion has a second statement to come.
    simp only [CrewAction.stage] at moved
    split at moved
    · split at moved
      · cases moved
        exact .complete ‹_›
      · cases moved
        exact .leave
    · cases moved
      exact .leave
  | completeRun | stop =>
    cases moved
    exact .leave
  | system | heartbeat => cases moved

/-- What a worker knows of its job, and that its token cannot be drawn again. -/
structure Crew.Sound (s : Crew) : Prop where
  drawn : ∀ worker c, (s.stages worker).claim = some c → c.token ∈ s.world.drawn
  agrees : ∀ worker c j, (s.stages worker).snapshot = some (c, j) →
    ∀ row, s.world.db.jobs.find? c.jobID = some row → row.claimToken = some c.token → row.Agrees j

/-- A snapshot belongs to the claim that the worker works on. -/
theorem Stage.claim_of_snapshot {st : Stage} {c : Claim} {j : Job}
    (taken : st.snapshot = some (c, j)) : st.claim = some c := by
  cases st <;> cases taken <;> rfl

/-- Two rows that agree with a third one. -/
theorem Job.Agrees.trans {row old j : Job} (first : row.Agrees old) (second : old.Agrees j) :
    row.Agrees j :=
  ⟨first.attempt.trans second.attempt, first.maxRetries.trans second.maxRetries,
    first.backoffSeconds.trans second.backoffSeconds⟩

/-- What a worker has read stays true in every step, as long as the row carries its token. -/
theorem Crew.Sound.keep (sound : s.Sound) (enabled : a.Enabled s) {worker : Nat} {c : Claim}
    {j : Job} (taken : (s.stages worker).snapshot = some (c, j)) {row : Job}
    (stored : (s.step env a).world.db.jobs.find? c.jobID = some row)
    (held : row.claimToken = some c.token) : row.Agrees j := by
  -- The token is an old one, so the row carried it before the step.
  have drawn := sound.drawn worker c (Stage.claim_of_snapshot taken)
  obtain ⟨old, found, carried, same⟩ := Crew.held_row enabled drawn stored held
  exact same.trans (sound.agrees worker c j taken old found carried)

/-- Every step keeps what the workers know. -/
theorem Crew.Sound.step (sound : s.Sound) (enabled : a.Enabled s) : (s.step env a).Sound := by
  constructor
  · intro worker c claim
    rcases Crew.stage_step env s a worker with same | moved
    · rw [same] at claim
      exact Crew.drawn_step (sound.drawn worker c claim)
    · generalize (s.step env a).stages worker = st at moved claim
      cases CrewAction.moves moved with
      | claim =>
        -- The claim draws its token itself.
        cases claim
        simp [Crew.step, CrewAction.action, World.step, Action.draws]
      | read before | start before | finish before | complete before =>
        cases claim
        exact Crew.drawn_step (sound.drawn worker c (by rw [before]; rfl))
      | leave => cases claim
  · intro worker c j taken row stored held
    rcases Crew.stage_step env s a worker with same | moved
    · rw [same] at taken
      exact sound.keep enabled taken stored held
    · generalize (s.step env a).stages worker = st at moved taken
      cases CrewAction.moves moved with
      | read before found =>
        -- The row has just been read.
        cases taken
        have drawn := sound.drawn worker c (by rw [before]; rfl)
        obtain ⟨old, located, -, same⟩ := Crew.held_row enabled drawn stored held
        rw [found, Option.some.injEq] at located
        exact located ▸ same
      | start before | finish before =>
        -- The snapshot is handed on from stage to stage.
        cases taken
        exact sound.keep enabled (by rw [before]; rfl) stored held
      | claim | complete | leave => cases taken

/-- What the workers know is true throughout every run. -/
theorem Crew.Reaches.sound {past : List (Step Crew CrewAction)} (run : Crew.Reaches env past s) :
    s.Sound := by
  obtain ⟨start, run⟩ := run
  refine run.invariant Crew.Sound ⟨?_, ?_⟩ ?_
  · intro worker c claim
    cases claim
  · intro worker c j taken
    cases taken
  · rintro s a s' sound ⟨enabled, rfl⟩
    exact sound.step enabled

end Sluice
