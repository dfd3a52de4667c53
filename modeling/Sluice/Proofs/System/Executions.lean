import Sluice.Proofs.Attempts
import Sluice.Proofs.System.Crew
import Sluice.Proofs.System.Outcomes
import Sluice.Proofs.System.Reads
import Sluice.Proofs.System.Scheduled

/-! Every claim leads to one execution at most, so no job is executed more often than claimed. -/

namespace Sluice

open Relational Transition

variable {env : Nat → Env} {past : List (Step Crew CrewAction)} {s : Crew} {a : CrewAction}

/-- The claim that a step makes. -/
def madeClaim (e : Step Crew CrewAction) : Option Claim :=
  match e.label with
  | .claim .. => (e.label.stage e.pre).bind fun moved => moved.2.claim
  | _ => none

/-- The claim whose job a step carries out. -/
def executedClaim (e : Step Crew CrewAction) : Option Claim :=
  match e.label with
  | .execute worker _ _ =>
    match e.pre.stages worker with
    | .executing c _ => some c
    | _ => none
  | _ => none

/-- The claim that a worker has still to carry out. -/
def Stage.ahead : Stage → Option Claim
  | claimed c | read c _ | executing c _ => some c
  | _ => none

/-- A claim that is still to be carried out is the one that the worker works on. -/
theorem Stage.claim_of_ahead {st : Stage} {c : Claim} (ahead : st.ahead = some c) :
    st.claim = some c := by
  cases st <;> cases ahead <;> rfl

/-- A step that carries out a job is its worker's, which has the job behind it afterwards. -/
theorem executedClaim_inv {c : Claim} (executed : executedClaim ⟨s, a, s.step env a⟩ = some c) :
    ∃ worker web canceled j, a = .execute worker web canceled ∧
      s.stages worker = .executing c j ∧
      (s.step env a).stages worker = .executed c j (execute web canceled j) s.world.now := by
  unfold executedClaim at executed
  split at executed
  · rename_i worker web canceled label
    cases label
    split at executed
    · rename_i j found
      cases executed
      have stage : s.stages worker = .executing c j := found
      refine ⟨worker, web, canceled, j, rfl, stage, ?_⟩
      simp [Crew.step, CrewAction.stage, stage]
    · cases executed
  · cases executed

/-- A worker that has just got a claim has made it, with a token that nobody has drawn before. -/
theorem madeClaim_of_claimed (env : Nat → Env) {worker : Nat} {c : Claim} (enabled : a.Enabled s)
    (moved : a.stage s = some (worker, .claimed c)) :
    madeClaim ⟨s, a, s.step env a⟩ = some c ∧ c.token ∉ s.world.drawn := by
  cases a with
  | claim actor jobID workerID token runID began clock =>
    have draws := (enabled.2 _ rfl).1
    obtain ⟨id, -, same⟩ := Option.map_eq_some_iff.mp moved
    cases same
    refine ⟨?_, draws⟩
    simp only [madeClaim]
    rw [moved]
    rfl
  | _ =>
    -- No other step leads to this stage.
    have moves := CrewAction.moves moved
    cases moves

/-- The token of a claim that a step makes is drawn in that step. -/
theorem madeClaim_drawn {c : Claim} (made : madeClaim ⟨s, a, s.step env a⟩ = some c) :
    c.token ∈ (s.step env a).world.drawn := by
  unfold madeClaim at made
  split at made
  · rename_i label
    cases label
    obtain ⟨moved, stage, claim⟩ := Option.bind_eq_some_iff.mp made
    obtain ⟨id, -, rfl⟩ := Option.map_eq_some_iff.mp stage
    cases claim
    simp [Crew.step, CrewAction.action, World.step, Action.draws]
  · cases made

/-- Which claims were made, which were carried out, and which the workers have in hand. -/
structure Crew.Exact (past : List (Step Crew CrewAction)) (s : Crew) : Prop where
  drawn : ∀ c ∈ past.filterMap madeClaim, c.token ∈ s.world.drawn
  made : ∀ worker c, (s.stages worker).claim = some c → c ∈ past.filterMap madeClaim
  apart : ∀ worker worker' c, (s.stages worker).claim = some c →
    (s.stages worker').claim = some c → worker = worker'
  ahead : ∀ worker c, (s.stages worker).ahead = some c → c ∉ past.filterMap executedClaim
  executed : ∀ c ∈ past.filterMap executedClaim, c ∈ past.filterMap madeClaim
  nodup : (past.filterMap executedClaim).Nodup

namespace Crew.Exact

/-- A claim in hand after a step is an old one of the same worker, or the step has made it. -/
theorem origin (enabled : a.Enabled s) {worker : Nat} {c : Claim}
    (claim : ((s.step env a).stages worker).claim = some c) :
    (s.stages worker).claim = some c ∨
      madeClaim ⟨s, a, s.step env a⟩ = some c ∧ c.token ∉ s.world.drawn ∧
        a.stage s = some (worker, .claimed c) := by
  rcases Crew.stage_step env s a worker with same | moved
  · exact .inl (same ▸ claim)
  · generalize (s.step env a).stages worker = st at moved claim
    cases CrewAction.moves moved with
    | claim =>
      cases claim
      obtain ⟨made, fresh⟩ := madeClaim_of_claimed env enabled moved
      exact .inr ⟨made, fresh, moved⟩
    | read before | start before | finish before | complete before =>
      cases claim
      exact .inl (by rw [before]; rfl)
    | leave => cases claim

/-- A claim that is still ahead of a worker was so before, or the step has made it. -/
theorem ahead_origin {worker : Nat} {c : Claim}
    (ahead : ((s.step env a).stages worker).ahead = some c) :
    (s.stages worker).ahead = some c ∨ a.stage s = some (worker, .claimed c) := by
  rcases Crew.stage_step env s a worker with same | moved
  · exact .inl (same ▸ ahead)
  · generalize (s.step env a).stages worker = st at moved ahead
    cases CrewAction.moves moved with
    | claim =>
      cases ahead
      exact .inr moved
    | read before | start before =>
      cases ahead
      exact .inl (by rw [before]; rfl)
    | finish | complete | leave => cases ahead

/-- A claim whose token is new was neither made nor carried out before. -/
theorem unmade (exact : Exact past s) {c : Claim} (fresh : c.token ∉ s.world.drawn) :
    c ∉ past.filterMap madeClaim :=
  fun listed => fresh (exact.drawn c listed)

/-- Every step keeps claims and executions in line. -/
theorem step (exact : Exact past s) (enabled : a.Enabled s) :
    Exact (past ++ [⟨s, a, s.step env a⟩]) (s.step env a) := by
  refine ⟨?_, ?_, ?_, ?_, ?_, ?_⟩
  · intro c listed
    rcases mem_filterMap_snoc.mp listed with old | new
    · exact Crew.drawn_step (exact.drawn c old)
    · exact madeClaim_drawn new
  · intro worker c claim
    rcases origin enabled claim with old | ⟨new, -⟩
    · exact mem_filterMap_snoc.mpr (.inl (exact.made worker c old))
    · exact mem_filterMap_snoc.mpr (.inr new)
  · intro worker worker' c claim claim'
    rcases origin enabled claim with old | ⟨-, fresh, moved⟩
    · rcases origin enabled claim' with old' | ⟨-, fresh, -⟩
      · exact exact.apart worker worker' c old old'
      · exact absurd (exact.made worker c old) (exact.unmade fresh)
    · rcases origin enabled claim' with old' | ⟨-, -, moved'⟩
      · exact absurd (exact.made worker' c old') (exact.unmade fresh)
      · rw [moved, Option.some.injEq, Prod.mk.injEq] at moved'
        exact moved'.1
  · intro worker c ahead listed
    rcases ahead_origin ahead with old | moved
    · rcases mem_filterMap_snoc.mp listed with before | executed
      · exact exact.ahead worker c old before
      · -- Only its own worker carries a claim out, and has it behind it then.
        obtain ⟨actor, _, _, j, -, stage, after⟩ := executedClaim_inv executed
        have same := exact.apart worker actor c (Stage.claim_of_ahead old) (by rw [stage]; rfl)
        rw [same, after] at ahead
        cases ahead
    · have fresh := (madeClaim_of_claimed env enabled moved).2
      rcases mem_filterMap_snoc.mp listed with before | executed
      · exact exact.unmade fresh (exact.executed c before)
      · obtain ⟨actor, _, _, j, -, stage, -⟩ := executedClaim_inv executed
        exact exact.unmade fresh (exact.made actor c (by rw [stage]; rfl))
  · intro c listed
    rcases mem_filterMap_snoc.mp listed with old | executed
    · exact mem_filterMap_snoc.mpr (.inl (exact.executed c old))
    · obtain ⟨actor, _, _, j, -, stage, -⟩ := executedClaim_inv executed
      exact mem_filterMap_snoc.mpr (.inl (exact.made actor c (by rw [stage]; rfl)))
  · rw [filterMap_snoc]
    cases executed : executedClaim ⟨s, a, s.step env a⟩ with
    | none => simpa using exact.nodup
    | some c =>
      -- The worker had the claim ahead of it, so it is a new one in the list.
      obtain ⟨actor, _, _, j, -, stage, -⟩ := executedClaim_inv executed
      have fresh := exact.ahead actor c (by rw [stage]; rfl)
      rw [Option.toList_some, List.nodup_append]
      refine ⟨exact.nodup, List.nodup_singleton c, ?_⟩
      rintro c' old c'' new rfl
      rw [List.mem_singleton.mp new] at old
      exact fresh old

/-- They are in line throughout every run. -/
theorem of_run {start : Time} (run : Run (Crew.Next env) (Crew.init start) past s) :
    Exact past s := by
  refine run.history Exact ⟨by simp, ?_, ?_, by simp, by simp, by simp⟩ ?_
  · intro worker c claim
    cases claim
  · intro worker worker' c claim
    cases claim
  · rintro past s a s' - exact ⟨enabled, rfl⟩
    exact exact.step enabled

/-- A job is carried out at most as often as it is claimed. -/
theorem countP_le (exact : Exact past s) (k : UUID) :
    (past.filterMap executedClaim).countP (·.jobID == k) ≤
      (past.filterMap madeClaim).countP (·.jobID == k) := by
  -- The claims that were carried out are distinct, and all of them were made.
  rw [List.countP_eq_length_filter, List.countP_eq_length_filter]
  refine (exact.nodup.filter _).length_le_of_subset fun c listed => ?_
  obtain ⟨executed, own⟩ := List.mem_filter.mp listed
  exact List.mem_filter.mpr ⟨exact.executed c executed, own⟩

end Crew.Exact

/-- The storage calls of a run. -/
def Crew.calls (env : Nat → Env) (past : List (Step Crew CrewAction)) : List (Step Db Op) :=
  past.filterMap (Step.project (fun s => s.world.db) (Crew.op env))

/-- Whatever the workers and all others do to the tables is a run of storage calls. -/
theorem Crew.calls_run {start : Time} (run : Run (Crew.Next env) (Crew.init start) past s) :
    Calls (Crew.calls env past) s.world.db := by
  refine run.project (fun s => s.world.db) (Crew.op env) ?_
  rintro past s a s' - ⟨-, rfl⟩
  simp only [Crew.op]
  cases called : a.action s with
  | none => exact .inr ⟨rfl, by simp [Crew.step, called]⟩
  | some b =>
    simp only [Crew.step, called, Option.elim_some, Option.bind_some]
    cases made : b.op env s.world with
    | none => exact .inr ⟨rfl, World.step_db_none made⟩
    | some op => exact .inl ⟨op, rfl, Action.op_issued made, World.step_db_some made⟩

/-- A step that makes a claim makes the call that claims the job. -/
theorem claims_of_madeClaim (env : Nat → Env) {c : Claim} {s' : Crew}
    (made : madeClaim ⟨s, a, s'⟩ = some c) :
    ∃ op, Crew.op env ⟨s, a, s'⟩ = some op ∧ op.claims c.jobID s.world.db = true := by
  unfold madeClaim at made
  split at made
  · rename_i worker jobID workerID token runID began clock label
    cases label
    obtain ⟨moved, stage, claim⟩ := Option.bind_eq_some_iff.mp made
    obtain ⟨id, claimed, rfl⟩ := Option.map_eq_some_iff.mp stage
    cases claim
    refine ⟨_, rfl, ?_⟩
    simp [Op.claims, claimed]
  · cases made

/-- A step that gives a job a second life. -/
def replaysJob (env : Nat → Env) (k : UUID) (e : Step Crew CrewAction) : Bool :=
  match Crew.op env e with
  | some (.replayJob id tenantID) => (Op.replayJob id tenantID).opens k e.pre.world.db
  | some (.cmdReplay id) => (Op.cmdReplay id).opens k e.pre.world.db
  | _ => false

/-- A step with a storage call does to the tables what the call does. -/
theorem Crew.step_db {op : Op} {s' : Crew} (called : Crew.op env ⟨s, a, s'⟩ = some op) :
    ∃ b, a.action s = some b ∧ b.op env s.world = some op ∧
      (s.step env a).world.db = op.apply s.world.db := by
  obtain ⟨b, action, made⟩ := Option.bind_eq_some_iff.mp called
  refine ⟨b, action, made, ?_⟩
  have acted : a.action s = some b := action
  simp only [Crew.step, acted, Option.elim_some]
  exact World.step_db_some made

/-- A job is inserted under an identifier that nobody has drawn before. -/
theorem Crew.fresh_of_opens {k : UUID} {op : Op} (enabled : a.Enabled s) {b : Action}
    (action : a.action s = some b) (made : b.op env s.world = some op)
    (opened : op.opens k s.world.db = true) (inserted : ∃ j, op = .insertJob j) :
    k ∉ s.world.drawn := by
  obtain ⟨j, rfl⟩ := inserted
  simp only [Op.opens, Bool.and_eq_true, beq_iff_eq] at opened
  obtain ⟨rfl, -⟩ := opened
  have enabled' := enabled.2 b action
  cases Action.makes made with
  | submit => exact enabled'.2.1
  | fire head fired =>
    obtain ⟨_, template, -, rfl, -⟩ := fireSchedule_inv fired
    exact enabled'.1

/-- The claims of a job, all of which belong to its only epoch unless it is replayed. -/
structure Crew.OneEpoch (env : Nat → Env) (k : UUID) (past : List (Step Crew CrewAction))
    (s : Crew) : Prop where
  unclaimed : k ∉ s.world.drawn →
    (Crew.calls env past).countP (fun e => e.label.claims k e.pre) = 0
  epoch : epochClaims k (Crew.calls env past) =
    (Crew.calls env past).countP fun e => e.label.claims k e.pre
  made : (past.filterMap madeClaim).countP (·.jobID == k) ≤
    (Crew.calls env past).countP fun e => e.label.claims k e.pre

namespace Crew.OneEpoch

/-- A step without a storage call changes nothing. -/
theorem silent {k : UUID} (one : OneEpoch env k past s)
    (silent : Crew.op env ⟨s, a, s.step env a⟩ = none) :
    OneEpoch env k (past ++ [⟨s, a, s.step env a⟩]) (s.step env a) := by
  have same : Crew.calls env (past ++ [⟨s, a, s.step env a⟩]) = Crew.calls env past := by
    rw [Crew.calls, filterMap_snoc, Step.project, silent]
    simp [Crew.calls]
  have unmade : madeClaim ⟨s, a, s.step env a⟩ = none := by
    cases made : madeClaim ⟨s, a, s.step env a⟩ with
    | none => rfl
    | some c =>
      obtain ⟨op, called, -⟩ := claims_of_madeClaim env made
      rw [silent] at called
      cases called
  refine ⟨?_, ?_, ?_⟩
  · intro fresh
    rw [same]
    exact one.unclaimed fun drawn => fresh (Crew.drawn_step drawn)
  · rw [same]
    exact one.epoch
  · rw [same, filterMap_snoc, unmade]
    simpa using one.made

/-- A storage call counts if it claims the job, and only the insertion begins an epoch. -/
theorem called {k : UUID} (one : OneEpoch env k past s) (known : Known s.world)
    (enabled : a.Enabled s) {op : Op} (called : Crew.op env ⟨s, a, s.step env a⟩ = some op)
    (single : replaysJob env k ⟨s, a, s.step env a⟩ = false) :
    OneEpoch env k (past ++ [⟨s, a, s.step env a⟩]) (s.step env a) := by
  obtain ⟨b, action, made, applied⟩ := Crew.step_db called
  have grown : Crew.calls env (past ++ [⟨s, a, s.step env a⟩]) =
      Crew.calls env past ++ [⟨s.world.db, op, op.apply s.world.db⟩] := by
    rw [Crew.calls, filterMap_snoc, Step.project, called, Option.map_some, applied]
    rfl
  have counted : (Crew.calls env (past ++ [⟨s, a, s.step env a⟩])).countP
      (fun e => e.label.claims k e.pre) =
      (Crew.calls env past).countP (fun e => e.label.claims k e.pre) +
        if op.claims k s.world.db then 1 else 0 := by
    rw [grown, List.countP_append, List.countP_singleton]
  refine ⟨?_, ?_, ?_⟩
  · intro fresh
    have before : k ∉ s.world.drawn := fun drawn => fresh (Crew.drawn_step drawn)
    -- What is claimed is stored, under an identifier that was drawn.
    have calm : ¬ op.claims k s.world.db = true := by
      intro claimed
      obtain ⟨_, _, _, _, _, row, -, found, -⟩ := Op.claims_inv claimed
      exact before (known.rows k row found)
    rw [counted, one.unclaimed before, if_neg calm]
  · cases opened : op.opens k s.world.db with
    | false => rw [grown, epochClaims_continue _ opened, ← grown, counted, one.epoch]
    | true =>
      -- It is the insertion, before which nobody can have claimed the job.
      have inserted : ∃ j, op = .insertJob j := by
        cases op with
        | insertJob j => exact ⟨j, rfl⟩
        | replayJob | cmdReplay =>
          rw [replaysJob, called] at single
          simp only [opened] at single
          cases single
        | _ => cases opened
      have fresh := Crew.fresh_of_opens enabled action made opened inserted
      obtain ⟨j, rfl⟩ := inserted
      rw [counted, one.unclaimed fresh, grown, epochClaims_open _ opened]
      rfl
  · rw [counted, filterMap_snoc, List.countP_append]
    refine Nat.add_le_add one.made ?_
    cases claim : madeClaim ⟨s, a, s.step env a⟩ with
    | none => simp
    | some c =>
      obtain ⟨op', called', claims⟩ := claims_of_madeClaim env claim
      rw [called, Option.some.injEq] at called'
      subst called'
      by_cases own : c.jobID = k
      · rw [← own, if_pos claims, Option.toList_some, List.countP_singleton]
        split <;> simp
      · simp [own]

/-- It holds throughout every run without a replay of the job. -/
theorem of_run {k : UUID} {start : Time} (run : Run (Crew.Next env) (Crew.init start) past s)
    (single : ∀ e ∈ past, replaysJob env k e = false) : OneEpoch env k past s := by
  revert single
  refine run.history (fun past s => (∀ e ∈ past, replaysJob env k e = false) →
    OneEpoch env k past s) (fun _ => ⟨by simp [Crew.calls], rfl, by simp⟩) ?_
  rintro past s a s' before ih ⟨enabled, rfl⟩ single
  have one := ih fun e listed => single e (List.mem_append_left _ listed)
  cases made : Crew.op env ⟨s, a, s.step env a⟩ with
  | none => exact one.silent made
  | some op =>
    obtain ⟨start', reached⟩ := Crew.Reaches.world ⟨start, before⟩
    exact one.called (known_of_run reached) enabled made (single _ (by simp))

end Crew.OneEpoch

/-- As long as a job is stored, its row shows how often it may have been claimed. -/
theorem claims_le_of_stored {start : Time} (run : Run (Crew.Next env) (Crew.init start) past s)
    {k : UUID} (single : ∀ e ∈ past, replaysJob env k e = false) {row : Job}
    (stored : s.world.db.jobs.find? k = some row) :
    ((Crew.calls env past).countP (fun e => e.label.claims k e.pre) : Int) ≤
      max 1 row.maxRetries := by
  rw [← (Crew.OneEpoch.of_run run single).epoch]
  exact (((Crew.calls_run run).audited k).row row stored).bounded

/-- A step that leaves no row of a job behind has not claimed it. -/
theorem calls_step_of_gone {k : UUID} (gone : (s.step env a).world.db.jobs.find? k = none) :
    (Crew.calls env (past ++ [⟨s, a, s.step env a⟩])).countP (fun e => e.label.claims k e.pre) =
      (Crew.calls env past).countP fun e => e.label.claims k e.pre := by
  rw [Crew.calls, filterMap_snoc, List.countP_append, Step.project]
  cases called : Crew.op env ⟨s, a, s.step env a⟩ with
  | none => simp [Crew.calls]
  | some op =>
    obtain ⟨b, -, -, applied⟩ := Crew.step_db called
    -- A claim updates the row, which is then stored.
    have calm : op.claims k s.world.db ≠ true := by
      intro claimed
      obtain ⟨_, _, _, _, _, _, -, -, -, after, -⟩ := Op.claims_inv claimed
      rw [applied, after] at gone
      cases gone
    simp [calm, Crew.calls]

/-- No job is claimed more often than it allows, whatever has become of it since its insertion. -/
theorem claims_le_of_inserted {start : Time} (run : Run (Crew.Next env) (Crew.init start) past s)
    {j : Job} (inserted : Inserted env past j)
    (single : ∀ e ∈ past, replaysJob env j.id e = false) :
    ((Crew.calls env past).countP (fun e => e.label.claims j.id e.pre) : Int) ≤
      max 1 j.maxRetries := by
  revert inserted single
  refine run.history (fun past _ => Inserted env past j →
    (∀ e ∈ past, replaysJob env j.id e = false) →
      ((Crew.calls env past).countP (fun e => e.label.claims j.id e.pre) : Int) ≤
        max 1 j.maxRetries) (fun ⟨_, listed, _⟩ => nomatch listed) ?_
  rintro past s a s' before ih ⟨enabled, rfl⟩ inserted single
  have reached := before.snoc (a := a) ⟨enabled, rfl⟩
  cases after : (s.step env a).world.db.jobs.find? j.id with
  | some row =>
    have bound := claims_le_of_stored reached single after
    rwa [(inserted.sameOrder ⟨start, reached⟩ after).maxRetries] at bound
  | none =>
    -- The insertion has left a row behind, so it was made in an earlier step.
    have older : Inserted env past j := by
      obtain ⟨e, listed, called, accepted⟩ := inserted
      rcases List.mem_append.mp listed with old | new
      · exact ⟨e, old, called, accepted⟩
      · rw [List.mem_singleton.mp new] at called accepted
        obtain ⟨b, -, -, applied⟩ := Crew.step_db called
        rw [applied] at after
        exact nomatch after.symm.trans (find?_of_insertJob accepted)
    rw [calls_step_of_gone after]
    exact ih older fun e listed => single e (List.mem_append_left _ listed)

/--
A job that is not replayed is carried out at most as often as its retry limit says, or once where
the limit is lower than that.

The bound is on the executions of all workers, stale ones included, whatever else happens, and for
jobs that have been cancelled since as well.
-/
theorem executions_bounded (run : Crew.Reaches env past s) {j : Job}
    (inserted : Inserted env past j) (single : ∀ e ∈ past, replaysJob env j.id e = false) :
    ((past.filterMap executedClaim).countP (·.jobID == j.id) : Int) ≤ max 1 j.maxRetries := by
  obtain ⟨start, run⟩ := run
  have one := Crew.OneEpoch.of_run run single
  -- Every execution belongs to a claim of its own.
  have executed := ((Crew.Exact.of_run run).countP_le j.id).trans one.made
  have claims := claims_le_of_inserted run inserted single
  omega

/-- The job is carried out, fails, and is cancelled when it is due for its next attempt. -/
def cancelledAfterwards : List CrewAction :=
  let before := failedExecution 3 ++ [.record 0 failedDraw true, .system (.tick (200 * second))]
  before ++ [.system (.poll 1 .pollFailedJobs
      (afterCrew (fun _ => .everyMinute) 0 before).world.db.jobs.rows),
    .system (.exec 1 31 (200 * second)), .system (.cancelJob 1 7)]

theorem executions_bounded_failed :
    (((crewTrace (fun _ => .everyMinute) 0 cancelledAfterwards).filterMap executedClaim).countP
        (·.jobID == 1) = 1) ∧
      (afterCrew (fun _ => .everyMinute) 0 cancelledAfterwards).world.db.jobs.find? 1 = none ∧
      (((crewTrace (fun _ => .everyMinute) 0 cancelledAfterwards).filterMap executedClaim).countP
        (·.jobID == 1) : Int) ≤ max 1 3 := by
  have run := reaches_crewTrace (fun _ => .everyMinute) 0 cancelledAfterwards (by decide +kernel)
  have single : (crewTrace (fun _ => .everyMinute) 0 cancelledAfterwards).all
      (fun e => !replaysJob (fun _ => .everyMinute) 1 e) = true := by decide +kernel
  have inserted : Inserted (fun _ => .everyMinute)
      (crewTrace (fun _ => .everyMinute) 0 cancelledAfterwards)
      (submittedJob 7 (limitedRequest 3) 1 0) :=
    ⟨_, List.mem_cons_self, rfl, by decide +kernel⟩
  refine ⟨by decide +kernel, by decide +kernel, executions_bounded run inserted fun e listed => ?_⟩
  exact Bool.not_eq_true' _ ▸ List.all_eq_true.mp single e listed

end Sluice
