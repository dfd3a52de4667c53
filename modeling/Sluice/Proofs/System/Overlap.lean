import Sluice.Proofs.System.Deadlines
import Sluice.Proofs.System.Delivery
import Sluice.Proofs.System.Executions

/-! Two workers carry out one job at the same time only after one of them has lost its claim. -/

namespace Sluice

open Relational Transition

variable {env : Nat → Env} {past : List (Step Crew CrewAction)} {s : Crew} {a : CrewAction}

/-- The claim of a worker that has not begun to record an outcome. -/
def Stage.unrecorded : Stage → Option Claim
  | claimed c | read c _ | executing c _ | executed c _ _ _ => some c
  | idle | completing _ _ => none

/-- A claim without a recorded outcome is the one that the worker works on. -/
theorem Stage.claim_of_unrecorded {st : Stage} {c : Claim} (ahead : st.unrecorded = some c) :
    st.claim = some c := by
  cases st <;> cases ahead <;> rfl

/-- A step that takes a job away from the worker whose claim is in force. -/
inductive TakesAway (env : Nat → Env) (c : Claim) (e : Step Crew CrewAction) : Prop where
  -- The reaper finds the deadline of the claim behind the clock of the database.
  | reaped {row : Job} {clock : Time} (found : e.pre.world.db.jobs.find? c.jobID = some row)
      (held : row.claimToken = some c.token) (late : row.expired e.pre.world.now = true)
      (called : Crew.op env e = some (.requeueStaleJob c.jobID clock e.pre.world.now))
  | forced (held : c.InForce e.pre) (called : Crew.op env e = some (.cmdForceFail c.jobID))

/-- What can become of the token in the row of a job that is in flight. -/
inductive Releases (k token : UUID) (old : Job) : Op → Option Job → Prop where
  | kept {op : Op} {row : Job} (held : row.claimToken = some token) :
      Releases k token old op (some row)
  | completed {now : Time} {after : Option Job} :
      Releases k token old (.completeRow k token now) after
  | completedAtOnce {runID : UUID} {now : Time} {after : Option Job} :
      Releases k token old (.completeJob k runID token now) after
  | failed {runID : UUID} {errMsg : String} {nextRunAt : Option Time} {now : Time}
      {after : Option Job} :
      Releases k token old (.failJob k runID token errMsg nextRunAt now) after
  | reaped {now dbNow : Time} {after : Option Job} (late : old.expired dbNow = true) :
      Releases k token old (.requeueStaleJob k now dbNow) after
  | forced {after : Option Job} : Releases k token old (.cmdForceFail k) after

/-- A row in flight keeps its token, or the call ends the claim. -/
theorem RowStep.releases {k token : UUID} {op : Op} {old : Job} {after : Option Job}
    (step : RowStep k op (some old) after) (held : old.claimToken = some token)
    (live : old.state.inFlight = true) : Releases k token old op after := by
  cases step with
  | keep | start | extend => exact .kept held
  -- A call of the worker names the token that it finds.
  | complete own =>
    cases held.symm.trans own
    exact .completedAtOnce
  | completeRow own =>
    cases held.symm.trans own
    exact .completed
  | fail own =>
    cases held.symm.trans own
    exact .failed
  | requeue late => exact .reaped late
  | forceFail => exact .forced
  -- No other call finds a job in flight.
  | claim state | promoteScheduled state | promoteFailed state | replay state | cmdReplay state =>
    rw [state] at live
    cases live
  | cancel states =>
    rcases states with state | state <;> rw [state] at live <;> cases live

/-- A row that carries a token is in flight. -/
theorem Job.Consistent.inFlight {j : Job} {token : UUID} (consistent : j.Consistent)
    (held : j.claimToken = some token) : j.state.inFlight = true := by
  rw [State.inFlight_iff, ← consistent.deadline, ← consistent.token, held]
  rfl

/-- A worker that records an outcome has the claim behind it. -/
theorem Crew.unrecorded_record {worker : Nat} {d : ProcessDraw} {c : Claim} {j : Job}
    {outcome : Except String Unit} {ended : Time}
    (stage : s.stages worker = .executed c j outcome ended) :
    ((s.step env (.record worker d true)).stages worker).unrecorded = none := by
  cases outcome with
  | error message => simp [Crew.step, CrewAction.stage, stage, Stage.unrecorded]
  | ok result =>
    simp only [Crew.step, CrewAction.stage, stage]
    split <;> simp [Stage.unrecorded]

/-- How far the claims that the workers have in hand can be relied on. -/
structure Crew.Guarded (env : Nat → Env) (past : List (Step Crew CrewAction)) (s : Crew) :
    Prop where
  apart : ∀ worker worker' c c', (s.stages worker).claim = some c →
    (s.stages worker').claim = some c' → c.token = c'.token → worker = worker' ∧ c = c'
  held : ∀ worker c, (s.stages worker).unrecorded = some c →
    c.InForce s ∨ ∃ e ∈ past, TakesAway env c e

namespace Crew.Guarded

/-- Tokens tell claims and their workers apart, since each claim draws a new one. -/
theorem apart_step (guarded : Guarded env past s) (sound : s.Sound) (enabled : a.Enabled s)
    (worker worker' : Nat) (c c' : Claim) (claim : ((s.step env a).stages worker).claim = some c)
    (claim' : ((s.step env a).stages worker').claim = some c') (same : c.token = c'.token) :
    worker = worker' ∧ c = c' := by
  rcases Crew.Exact.origin enabled claim with old | ⟨-, fresh, moved⟩
  · rcases Crew.Exact.origin enabled claim' with old' | ⟨-, fresh, -⟩
    · exact guarded.apart worker worker' c c' old old' same
    · exact absurd (same ▸ sound.drawn worker c old) fresh
  · rcases Crew.Exact.origin enabled claim' with old' | ⟨-, -, moved'⟩
    · exact absurd (same ▸ sound.drawn worker' c' old') fresh
    · rw [moved, Option.some.injEq, Prod.mk.injEq, Stage.claimed.injEq] at moved'
      exact moved'

/-- A claim that has just been made is in force. -/
theorem inForce_of_claimed {worker : Nat} {c : Claim}
    (moved : a.stage s = some (worker, .claimed c)) : c.InForce (s.step env a) := by
  cases a with
  | claim actor jobID workerID token runID began clock =>
    obtain ⟨id, granted, same⟩ := Option.map_eq_some_iff.mp moved
    cases same
    have claims : (Op.tryClaim jobID workerID token
        (began + (visibilityTimeout + 30 * second)) runID clock).claims jobID s.world.db =
          true := by
      simp [Op.claims, granted]
    obtain ⟨_, _, _, _, _, row, same, -, -, stored, -⟩ := Op.claims_inv claims
    cases same
    exact ⟨_, stored, rfl⟩
  | _ =>
    -- No other step leads to this stage.
    have moves := CrewAction.moves moved
    cases moves

/-- A claim without a recorded outcome was one before, or the step has made it. -/
theorem unrecorded_origin {worker : Nat} {c : Claim}
    (ahead : ((s.step env a).stages worker).unrecorded = some c) :
    (s.stages worker).unrecorded = some c ∨ a.stage s = some (worker, .claimed c) := by
  rcases Crew.stage_step env s a worker with same | moved
  · exact .inl (same ▸ ahead)
  · generalize (s.step env a).stages worker = st at moved ahead
    cases CrewAction.moves moved with
    | claim =>
      cases ahead
      exact .inr moved
    | read before | start before | finish before =>
      cases ahead
      exact .inl (by rw [before]; rfl)
    | complete | leave => cases ahead

/-- A claim in force stays so, unless the step takes the job away or its worker is done. -/
theorem keeps (guarded : Guarded env past s) (enabled : a.Enabled s)
    (consistent : ∀ k row, s.world.db.jobs.find? k = some row → row.Consistent) {worker : Nat}
    {c : Claim} (old : (s.stages worker).unrecorded = some c)
    (ahead : ((s.step env a).stages worker).unrecorded = some c) (held : c.InForce s) :
    c.InForce (s.step env a) ∨ TakesAway env c ⟨s, a, s.step env a⟩ := by
  obtain ⟨row, found, token⟩ := held
  have live := (consistent _ _ found).inFlight token
  -- A worker whose outcome is recorded in this step is no longer ahead of that.
  have unrecorded : ∀ b, a.action s = some b → ∀ c', b.recordsClaim = some c' →
      c'.token ≠ c.token := by
    intro b called c' records same
    obtain ⟨actor, d, j, outcome, ended, rfl, stage, -⟩ :=
      CrewAction.record_inv enabled called records
    have own := (guarded.apart actor worker c' c (by rw [stage]; rfl)
      (Stage.claim_of_unrecorded old) same).1
    rw [← own, Crew.unrecorded_record stage] at ahead
    cases ahead
  cases called : a.action s with
  | none => exact .inl ⟨row, by simpa [Crew.step, called] using found, token⟩
  | some b =>
    rcases World.step_row env s.world b c.jobID with same | ⟨op, made, step⟩
    · refine .inl ⟨row, ?_, token⟩
      simp only [Crew.step, called, Option.elim_some]
      rw [same, found]
    · have op_eq : Crew.op env ⟨s, a, s.step env a⟩ = some op := by simp [Crew.op, called, made]
      generalize after : (s.world.step env b).db.jobs.find? c.jobID = row' at step
      rw [found] at step
      have origin := Action.makes made
      have released := step.releases token live
      generalize named : c.jobID = id at released origin
      generalize carried : c.token = token' at released
      cases released with
      | kept kept =>
        subst carried
        exact .inl ⟨_, by simpa [Crew.step, called] using after, kept⟩
      | completed =>
        cases origin with
        | completeRow => exact absurd carried.symm (unrecorded _ called _ rfl)
      | completedAtOnce => cases origin
      | failed =>
        cases origin with
        | failJob => exact absurd carried.symm (unrecorded _ called _ rfl)
      | reaped late =>
        cases origin with
        | requeue head =>
          rw [← named] at op_eq
          exact .inr (.reaped found token late op_eq)
      | forced =>
        subst named
        exact .inr (.forced ⟨row, found, token⟩ op_eq)

/-- Every step keeps the claims of the workers apart, and says where one of them is lost. -/
theorem step (guarded : Guarded env past s) (sound : s.Sound) (enabled : a.Enabled s)
    (consistent : ∀ k row, s.world.db.jobs.find? k = some row → row.Consistent) :
    Guarded env (past ++ [⟨s, a, s.step env a⟩]) (s.step env a) := by
  refine ⟨guarded.apart_step sound enabled, fun worker c ahead => ?_⟩
  rcases unrecorded_origin ahead with old | moved
  · rcases guarded.held worker c old with held | ⟨e, listed, taken⟩
    · rcases guarded.keeps enabled consistent old ahead held with kept | taken
      · exact .inl kept
      · exact .inr ⟨_, List.mem_append_right _ List.mem_cons_self, taken⟩
    · exact .inr ⟨e, List.mem_append_left _ listed, taken⟩
  · exact .inl (inForce_of_claimed moved)

/-- This holds throughout every run. -/
theorem of_run {start : Time} (run : Run (Crew.Next env) (Crew.init start) past s) :
    Guarded env past s := by
  refine run.history (Guarded env) ⟨?_, ?_⟩ ?_
  · intro worker worker' c c' claim
    cases claim
  · intro worker c ahead
    cases ahead
  · rintro past s a s' before guarded ⟨enabled, rfl⟩
    have reached : Crew.Reaches env past s := ⟨start, before⟩
    exact guarded.step reached.sound enabled reached.consistent

end Crew.Guarded

/--
Two workers carry out one job at the same time only after one of them has lost its claim to the
reaper, which found its deadline passed, or to an operator who has failed the job by force.
-/
theorem executions_overlap_lost (run : Crew.Reaches env past s) {worker worker' : Nat}
    {c c' : Claim} {j j' : Job} (first : s.stages worker = .executing c j)
    (second : s.stages worker' = .executing c' j') (same : c.jobID = c'.jobID)
    (apart : worker ≠ worker') : ∃ e ∈ past, TakesAway env c e ∨ TakesAway env c' e := by
  obtain ⟨start, run⟩ := run
  have guarded := Crew.Guarded.of_run run
  rcases guarded.held worker c (by rw [first]; rfl) with ⟨row, found, token⟩ | ⟨e, listed, taken⟩
  · rcases guarded.held worker' c' (by rw [second]; rfl) with
      ⟨row', found', token'⟩ | ⟨e, listed, taken⟩
    · -- One row carries one token, and one token belongs to one worker.
      rw [← same, found, Option.some.injEq] at found'
      subst found'
      rw [token, Option.some.injEq] at token'
      exact absurd (guarded.apart worker worker' c c' (by rw [first]; rfl) (by rw [second]; rfl)
        token').1 apart
    · exact ⟨e, listed, .inr taken⟩
  · exact ⟨e, listed, .inl taken⟩

/-- The job of the run below as the first worker claims it. -/
def pausedJob : Job :=
  claimRow "w" 21 (60 * second) 0 (submittedJob 7 .hook 1 0).inserted

/-- A worker pauses for longer than its claim lasts, and another one gets the job. -/
def overlapRun : List CrewAction :=
  [.system (.submit 0 7 .hook 1 0), .claim 0 1 "w" 21 11 0 0, .getJob 0,
    .markRunning 0 true, .system (.tick (61 * second)),
    .system (.poll 1 .reapStaleClaims [{ pausedJob with state := .running }]),
    .system (.exec 1 31 (61 * second)), .claim 1 1 "v" 22 12 (61 * second) (61 * second),
    .getJob 1, .markRunning 1 true]

theorem executions_overlap_lost_paused :
    ∃ e ∈ crewTrace (fun _ => .everyMinute) 0 overlapRun,
      TakesAway (fun _ => .everyMinute) ⟨1, 21, 11⟩ e ∨
        TakesAway (fun _ => .everyMinute) ⟨1, 22, 12⟩ e := by
  have run := reaches_crewTrace (fun _ => .everyMinute) 0 overlapRun (by decide +kernel)
  have first : (afterCrew (fun _ => .everyMinute) 0 overlapRun).stages 0 =
      .executing ⟨1, 21, 11⟩ pausedJob := by decide +kernel
  have second : (afterCrew (fun _ => .everyMinute) 0 overlapRun).stages 1 =
      .executing ⟨1, 22, 12⟩
        (claimRow "v" 22 (121 * second) (61 * second)
          (requeueRow { pausedJob with state := .running })) := by decide +kernel
  exact executions_overlap_lost run first second rfl (by decide)

end Sluice
