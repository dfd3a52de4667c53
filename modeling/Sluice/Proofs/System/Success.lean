import Sluice.Proofs.System.Frames
import Sluice.System.Trace

/-! Success is final: one completion, one succeeded run, and no change afterwards. -/

namespace Sluice

open Relational Transition

variable {env : Nat → Env} {w : World} {a : Action}

/-- A run of the job that is recorded as a success. -/
def succeededRun (k : UUID) (run : JobRun) : Bool := run.jobID == k && run.state == .succeeded

/-- The recorded successes of a job, and the completions that may still record one. -/
def successes (k : UUID) (w : World) : Nat :=
  w.completing.countP (fun p => p.1.jobID == k) + w.db.jobRuns.countP (succeededRun k)

/-- What the recorded runs, the claims, and the completions under way have to do with each other. -/
structure Recorded (w : World) : Prop where
  -- The identifiers of runs are drawn, and no two runs share one.
  distinct : (w.db.jobRuns.map JobRun.id).Nodup
  drawnRuns : ∀ run ∈ w.db.jobRuns, run.id ∈ w.drawn
  drawnClaims : ∀ c ∈ w.claims, c.runID ∈ w.drawn
  -- A claim names a run of its own job.
  owned : ∀ c ∈ w.claims, ∀ run ∈ w.db.jobRuns, run.id = c.runID → run.jobID = c.jobID
  known : ∀ p ∈ w.completing, p.1 ∈ w.claims
  closed : ∀ run ∈ w.db.jobRuns, run.state = .succeeded → run.finishedAt ≠ none
  single : ∀ k, successes k w ≤ 1
  final : ∀ k, 0 < successes k w → ∃ row, w.db.jobs.find? k = some row ∧ row.state = .succeeded

/-- A change to a run that neither touches a success nor makes one. -/
def Neutral (run run' : JobRun) : Prop :=
  run'.id = run.id ∧ run'.jobID = run.jobID ∧
    (run' = run ∨ run.state ≠ .succeeded ∧ run'.state ≠ .succeeded)

/-- A recorded success shows in the job's row. -/
theorem Recorded.row_of_run (recorded : Recorded w) {run : JobRun}
    (listed : run ∈ w.db.jobRuns) (done : run.state = .succeeded) :
    ∃ row, w.db.jobs.find? run.jobID = some row ∧ row.state = .succeeded := by
  -- The run alone makes the number of successes positive.
  refine recorded.final run.jobID (Nat.lt_add_left _ (List.countP_pos_iff.mpr ⟨run, listed, ?_⟩))
  simp [succeededRun, done]

/-- Only the second statement of a completion makes a success, and nothing changes one. -/
theorem Recorded.neutral (recorded : Recorded w) (enabled : a.Enabled w) {op : Op}
    (made : Makes env w a op) (other : ∀ c clock, a ≠ .completeRun c clock) {run run' : JobRun}
    (listed : run ∈ w.db.jobRuns) (step : RunStep w.db op run run') : Neutral run run' := by
  -- The step says which statement rewrote the run, if any did.
  have same := step.identity
  refine ⟨same.1, same.2.1, ?_⟩
  cases step with
  | keep => exact .inl rfl
  | complete => cases made
  | completeRun =>
    cases made
    exact absurd rfl (other _ _)
  | fail named found hit closed =>
    -- The caller's job is in flight, so its run cannot be a success.
    cases made
    right
    constructor
    · intro done
      obtain ⟨row, located, finished⟩ := recorded.row_of_run listed done
      rw [recorded.owned _ enabled.1 run listed named, found, Option.some.injEq] at located
      have live := (owned_claim hit).2
      rw [located, finished] at live
      cases live
    · rw [(JobRun.finish_closed closed).1, failState]
      split <;> simp
  | expire _ unfinished closed =>
    -- The reaper only closes open runs, and a success is closed.
    right
    refine ⟨fun done => recorded.closed run listed done unfinished, ?_⟩
    rw [(JobRun.finish_closed closed).1]
    simp

/-- Apart from second statements, a step opens one run or changes the runs neutrally. -/
theorem Recorded.runs_step (env : Nat → Env) (recorded : Recorded w) (enabled : a.Enabled w)
    (other : ∀ c clock, a ≠ .completeRun c clock) :
    (∃ jobID workerID token deadline runID clock row,
      a = .tryClaim jobID workerID token deadline runID clock ∧
      w.db.jobs.find? jobID = some row ∧
      (w.step env a).db.jobRuns = w.db.jobRuns ++ [openRun runID clock row]) ∨
    List.Forall₂ Neutral w.db.jobRuns (w.step env a).db.jobRuns := by
  -- Without a storage call the runs stay as they are.
  have still : List.Forall₂ Neutral w.db.jobRuns w.db.jobRuns :=
    List.forall₂_same.mpr fun run _ => ⟨rfl, rfl, .inl rfl⟩
  cases called : a.op env w with
  | none =>
    rw [World.step_db_none called]
    exact .inr still
  | some op =>
    rw [World.step_db_some called]
    have made := Action.makes called
    rcases apply_runs op w.db with
      ⟨jobID, workerID, token, deadline, runID, clock, row, rfl, found, -, grown⟩ | ⟨-, steps⟩
    · cases made
      exact .inl ⟨_, _, _, _, _, _, row, rfl, found, grown⟩
    · -- Each rewritten run was listed, which the argument about failures needs.
      exact .inr ((listed_of_forall₂ steps).imp fun run run' step =>
        recorded.neutral enabled made other step.1 step.2)

/-- A claim known after a step was known before, or the step made it. -/
theorem World.claims_inv {c : Claim} (known : c ∈ (w.step env a).claims) :
    c ∈ w.claims ∨ ∃ workerID deadline clock,
      a = .tryClaim c.jobID workerID c.token deadline c.runID clock := by
  -- A worker learns of a claim only from the call that made it.
  cases a with
  | tryClaim jobID workerID token deadline runID clock =>
    simp only [World.step, Action.claims] at known
    rcases tryClaim_spec jobID workerID token deadline runID clock w.db with
      ⟨row, -, -, done⟩ | ⟨-, done⟩
    · simp only [done, List.mem_cons] at known
      rcases known with rfl | old
      · exact .inr ⟨_, _, _, rfl⟩
      · exact .inl old
    · simp only [done] at known
      exact .inl known
  | _ => exact .inl known

/-- A completion under way after a step belongs to a known claim. -/
theorem World.completing_known (env : Nat → Env) (enabled : a.Enabled w)
    (known : ∀ p ∈ w.completing, p.1 ∈ w.claims) :
    ∀ p ∈ (w.step env a).completing, p.1 ∈ (w.step env a).claims := by
  -- Claims are never forgotten, and a completion starts from one of them.
  intro p under
  refine World.claims_step ?_
  cases a with
  | completeRow c clock =>
    simp only [World.step, Action.completing] at under
    split at under
    · exact known p under
    · rcases List.mem_cons.mp under with rfl | old
      · exact enabled.1
      · exact known p old
  | completeRun | abandon => exact known p (List.mem_of_mem_erase under)
  | _ => exact known p under

/-- The first statement of a completion, when it takes effect. -/
def completes (k : UUID) (e : Step World Action) : Bool :=
  match e.label with
  | .completeRow c clock =>
    c.jobID == k && (completeRow c.jobID c.token clock e.pre.db).1 != 0
  | _ => false

/-- An effective first statement finds the job in flight and leaves it succeeded. -/
theorem completes_row {k : UUID} (effective : completes k ⟨w, a, w.step env a⟩ = true) :
    (∃ row, w.db.jobs.find? k = some row ∧ row.state.inFlight = true) ∧
      ∃ row, (w.step env a).db.jobs.find? k = some row ∧ row.state = .succeeded := by
  -- It has affected a row, which its condition found in flight.
  cases a with
  | completeRow c clock =>
    simp only [completes, Bool.and_eq_true, beq_iff_eq] at effective
    obtain ⟨rfl, counted⟩ := effective
    rcases completeRow_spec c.jobID c.token clock w.db with ⟨row, found, hit, -⟩ | ⟨-, none⟩
    · refine ⟨⟨row, found, (owned_claim hit).2⟩, succeedRow clock row, ?_, rfl⟩
      rw [World.step_db_some (rfl : Action.op env w (.completeRow c clock) = _)]
      simp [Op.apply, completeRow, found, hit]
    · simp [none] at counted
  | _ => cases effective

/-- Completions under way grow in number only by an effective first statement. -/
theorem World.completing_count (env : Nat → Env) (w : World) (a : Action) (k : UUID) :
    (w.step env a).completing.countP (fun p => p.1.jobID == k) ≤
      w.completing.countP (fun p => p.1.jobID == k) +
        if completes k ⟨w, a, w.step env a⟩ then 1 else 0 := by
  -- The other two actions on completions remove one from the list.
  cases a with
  | completeRow c clock =>
    simp only [World.step, Action.completing, completes]
    split
    · exact Nat.le_add_right _ _
    · rename_i counted
      rw [List.countP_cons]
      simp only [beq_iff_eq] at counted
      simp [counted]
  | completeRun | abandon =>
    exact List.erase_sublist.countP_le.trans (Nat.le_add_right _ _)
  | _ => exact Nat.le_add_right _ _

/-- Successes that do not grow in number stay single and keep their row. -/
theorem Recorded.successes_keep (recorded : Recorded w) {k : UUID}
    (fewer : successes k (w.step env a) ≤ successes k w) :
    successes k (w.step env a) ≤ 1 ∧ (0 < successes k (w.step env a) →
      ∃ row, (w.step env a).db.jobs.find? k = some row ∧ row.state = .succeeded) := by
  -- A success after the step was one before it, and a succeeded row is final.
  refine ⟨fewer.trans (recorded.single k), fun some_success => ?_⟩
  obtain ⟨row, found, done⟩ := recorded.final k (some_success.trans_le fewer)
  exact ⟨row, World.succeeded_step found done, done⟩

/-- The first success of a job comes from a row in flight, where there was none before. -/
theorem Recorded.successes_step (recorded : Recorded w) (env : Nat → Env) (a : Action) (k : UUID)
    (runs : (w.step env a).db.jobRuns.countP (succeededRun k) ≤
      w.db.jobRuns.countP (succeededRun k)) :
    successes k (w.step env a) ≤ 1 ∧ (0 < successes k (w.step env a) →
      ∃ row, (w.step env a).db.jobs.find? k = some row ∧ row.state = .succeeded) := by
  have under := World.completing_count env w a k
  cases effective : completes k ⟨w, a, w.step env a⟩ with
  | false =>
    rw [effective, if_neg (by simp)] at under
    exact recorded.successes_keep (Nat.add_le_add under runs)
  | true =>
    rw [effective, if_pos rfl] at under
    obtain ⟨⟨row, found, live⟩, after⟩ := completes_row effective
    -- With a success the row would not have been in flight.
    have none_yet : successes k w = 0 := by
      by_contra some_success
      obtain ⟨other, located, done⟩ := recorded.final k (Nat.pos_of_ne_zero some_success)
      rw [found, Option.some.injEq] at located
      rw [located, done] at live
      cases live
    refine ⟨?_, fun _ => after⟩
    simp only [successes] at none_yet ⊢
    omega

/-- A claim that opens a run keeps the records in order. -/
theorem Recorded.step_claim {jobID token runID : UUID} {workerID : String} {deadline clock : Time}
    (recorded : Recorded w)
    (enabled : (Action.tryClaim jobID workerID token deadline runID clock).Enabled w) {row : Job}
    (found : w.db.jobs.find? jobID = some row)
    (grown : (w.step env (.tryClaim jobID workerID token deadline runID clock)).db.jobRuns =
      w.db.jobRuns ++ [openRun runID clock row]) :
    Recorded (w.step env (.tryClaim jobID workerID token deadline runID clock)) := by
  -- The new run carries a fresh identifier and the job of the claim.
  have known := World.completing_known env enabled recorded.known
  obtain ⟨-, fresh, -, -⟩ := enabled
  have counts := fun k => recorded.successes_step env
    (.tryClaim jobID workerID token deadline runID clock) k (by
      rw [grown, List.countP_append]
      simp [succeededRun, openRun])
  refine ⟨?_, ?_, ?_, ?_, known, ?_, fun k => (counts k).1, fun k => (counts k).2⟩
  · rw [grown, List.map_append, List.map_singleton]
    refine List.nodup_append.mpr ⟨recorded.distinct, List.nodup_singleton _, ?_⟩
    rintro id stored id' last rfl
    obtain ⟨run, listed, rfl⟩ := List.mem_map.mp stored
    have same : run.id = runID := List.mem_singleton.mp last
    exact fresh (same ▸ recorded.drawnRuns run listed)
  · intro run listed
    rw [grown, List.mem_append, List.mem_singleton] at listed
    rcases listed with old | rfl
    · exact World.drawn_step (recorded.drawnRuns run old)
    · simp [World.step, Action.draws, openRun]
  · intro c made
    rcases World.claims_inv made with old | ⟨_, _, _, same⟩
    · exact World.drawn_step (recorded.drawnClaims c old)
    · cases same
      simp [World.step, Action.draws]
  · -- Old claims name old runs, and the new claim names the new run.
    intro c made run listed named
    rw [grown, List.mem_append, List.mem_singleton] at listed
    rcases World.claims_inv made with old | ⟨_, _, _, same⟩ <;> rcases listed with prior | rfl
    · exact recorded.owned c old run prior named
    · have taken : runID = c.runID := named
      exact absurd (taken ▸ recorded.drawnClaims c old) fresh
    · cases same
      exact absurd (named ▸ recorded.drawnRuns run prior) fresh
    · cases same
      have owner : row.id = c.jobID := Table.key_of_find? found
      exact owner
  · -- A run is not opened as a success.
    intro run listed done
    rw [grown, List.mem_append, List.mem_singleton] at listed
    rcases listed with old | rfl
    · exact recorded.closed run old done
    · cases done

/-- A step that changes the runs neutrally keeps the records in order. -/
theorem Recorded.step_neutral (recorded : Recorded w) (enabled : a.Enabled w)
    (neutral : List.Forall₂ Neutral w.db.jobRuns (w.step env a).db.jobRuns) :
    Recorded (w.step env a) := by
  -- Identifiers and owners stay, and so does every success.
  have known := World.completing_known env enabled recorded.known
  have column := map_of_forall₂ neutral fun _ _ same => same.1
  have counts := fun k => recorded.successes_step env a k (by
    refine (countP_of_forall₂ (succeededRun k) (fun _ => false) neutral ?_).trans (by simp)
    rintro run run' ⟨-, -, rfl | ⟨-, undone⟩⟩ counted
    · exact .inl counted
    · simp [succeededRun, undone] at counted)
  refine ⟨column ▸ recorded.distinct, ?_, ?_, ?_, known, ?_, fun k => (counts k).1,
    fun k => (counts k).2⟩
  · intro run' listed
    obtain ⟨run, old, same, -⟩ := mem_of_forall₂ neutral listed
    rw [same]
    exact World.drawn_step (recorded.drawnRuns run old)
  · intro c made
    rcases World.claims_inv made with old | ⟨_, _, _, rfl⟩
    · exact World.drawn_step (recorded.drawnClaims c old)
    · simp [World.step, Action.draws]
  · intro c made run' listed named
    obtain ⟨run, old, same, owner, -⟩ := mem_of_forall₂ neutral listed
    rw [owner]
    rcases World.claims_inv made with prior | ⟨_, _, _, rfl⟩
    · exact recorded.owned c prior run old (same ▸ named)
    · -- A refused claim leaves no run under its fresh identifier.
      obtain ⟨-, fresh, -, -⟩ := enabled
      exact absurd (named ▸ same ▸ recorded.drawnRuns run old) fresh
  · rintro run' listed done
    obtain ⟨run, old, -, -, rfl | ⟨-, undone⟩⟩ := mem_of_forall₂ neutral listed
    · exact recorded.closed run' old done
    · exact absurd done undone

/-- The runs after a second statement. -/
theorem World.runs_completeRun (env : Nat → Env) (w : World) (c : Claim) (clock : Time) :
    List.Forall₂ (RunStep w.db (.completeRun c.runID clock)) w.db.jobRuns
      (w.step env (.completeRun c clock)).db.jobRuns := by
  rw [World.step_db_some (rfl : Action.op env w (.completeRun c clock) = _)]
  rcases apply_runs (.completeRun c.runID clock) w.db with
    ⟨_, _, _, _, _, _, _, same, -⟩ | ⟨-, steps⟩
  · cases same
  · exact steps

/-- A second statement turns a completion under way into at most one recorded success. -/
theorem Recorded.completeRun_count {c : Claim} {clock : Time} (recorded : Recorded w)
    (env : Nat → Env) (under : (c, clock) ∈ w.completing) (k : UUID) :
    successes k (w.step env (.completeRun c clock)) ≤ successes k w := by
  have steps := World.runs_completeRun env w c clock
  by_cases same : c.jobID = k
  · -- One completion less is under way, and one run can have turned into a success.
    have one : w.db.jobRuns.countP (fun run => run.id == c.runID) ≤ 1 := by
      have few := List.nodup_iff_count_le_one.mp recorded.distinct c.runID
      rwa [List.count, List.countP_map] at few
    have grown := countP_of_forall₂ (succeededRun k) (fun run => run.id == c.runID) steps ?_
    · have moved : (w.step env (.completeRun c clock)).completing.countP
          (fun p => p.1.jobID == k) + 1 = w.completing.countP (fun p => p.1.jobID == k) := by
        rw [(List.perm_cons_erase under).countP_eq, List.countP_cons]
        simp [World.step, Action.completing, same]
      simp only [successes]
      omega
    · intro run run' step counted
      cases step with
      | keep => exact .inl counted
      | completeRun named => exact .inr (by simp [named])
  · -- The run belongs to the job of the claim, so no run of another job is touched.
    have own := recorded.owned c (recorded.known _ under)
    refine Nat.add_le_add List.erase_sublist.countP_le ?_
    refine (countP_of_forall₂ (succeededRun k) (fun _ => false) (listed_of_forall₂ steps)
      ?_).trans (by simp)
    rintro run run' ⟨listed, step⟩ counted
    cases step with
    | keep => exact .inl counted
    | completeRun named closed =>
      rw [succeededRun, (JobRun.finish_identity closed).2.1, own run listed named] at counted
      simp [same] at counted

/-- A second statement keeps the records in order. -/
theorem Recorded.step_completeRun {c : Claim} {clock : Time} (recorded : Recorded w)
    (under : (c, clock) ∈ w.completing) : Recorded (w.step env (.completeRun c clock)) := by
  -- The step draws nothing and makes no claim, so only the runs have to be looked at.
  have known := World.completing_known env (a := .completeRun c clock) under recorded.known
  have steps := World.runs_completeRun env w c clock
  have column := map_of_forall₂ steps fun _ _ step => step.identity.1
  have kept := fun k => recorded.successes_keep (recorded.completeRun_count env under k)
  refine ⟨column ▸ recorded.distinct, ?_, ?_, ?_, known, ?_, fun k => (kept k).1,
    fun k => (kept k).2⟩
  · intro run' listed
    obtain ⟨run, old, step⟩ := mem_of_forall₂ steps listed
    rw [step.identity.1]
    exact World.drawn_step (recorded.drawnRuns run old)
  · exact recorded.drawnClaims
  · intro c made run' listed named
    obtain ⟨run, old, step⟩ := mem_of_forall₂ steps listed
    rw [step.identity.2.1]
    exact recorded.owned c made run old (step.identity.1 ▸ named)
  · intro run' listed done
    obtain ⟨run, old, step⟩ := mem_of_forall₂ steps listed
    cases step with
    | keep => exact recorded.closed run' old done
    | completeRun _ closed => simp [(JobRun.finish_closed closed).2]

/-- Every enabled step keeps the records in order. -/
theorem Recorded.step (recorded : Recorded w) (enabled : a.Enabled w) :
    Recorded (w.step env a) := by
  -- Apart from the second statement, a step opens one run or is neutral.
  by_cases second : ∃ c clock, a = .completeRun c clock
  · obtain ⟨c, clock, rfl⟩ := second
    exact recorded.step_completeRun enabled
  · rcases recorded.runs_step env enabled fun c clock same => second ⟨c, clock, same⟩ with
      ⟨_, _, _, _, _, _, row, rfl, found, grown⟩ | neutral
    · exact recorded.step_claim enabled found grown
    · exact recorded.step_neutral enabled neutral

/-- The records are in order in every state the system reaches. -/
theorem recorded_of_run {start : Time} {past : List (Step World Action)}
    (run : Run (Next env) (World.init start) past w) : Recorded w := by
  refine run.invariant Recorded ?_ ?_
  · exact ⟨by simp [World.init, Db.empty], by simp [World.init, Db.empty],
      by simp [World.init], by simp [World.init], by simp [World.init],
      by simp [World.init, Db.empty], by simp [successes, World.init, Db.empty],
      by simp [successes, World.init, Db.empty]⟩
  · rintro w a w' recorded ⟨enabled, rfl⟩
    exact recorded.step enabled

/-- No step changes a recorded success. -/
theorem Recorded.success_kept (recorded : Recorded w) (enabled : a.Enabled w) {n : Nat}
    {run : JobRun} (stored : w.db.jobRuns[n]? = some run) (done : run.state = .succeeded) :
    (w.step env a).db.jobRuns[n]? = some run := by
  have listed : run ∈ w.db.jobRuns := List.mem_of_getElem? stored
  by_cases second : ∃ c clock, a = .completeRun c clock
  · obtain ⟨c, clock, rfl⟩ := second
    obtain ⟨run', located, step⟩ :=
      getElem?_of_forall₂ (World.runs_completeRun env w c clock) stored
    cases step with
    | keep => exact located
    | completeRun named =>
      -- The job would have a success and a completion under way at once.
      have owner := recorded.owned c (recorded.known _ enabled) run listed named
      have under : 0 < w.completing.countP (fun p => p.1.jobID == run.jobID) :=
        List.countP_pos_iff.mpr ⟨_, enabled, by simp [owner]⟩
      have success : 0 < w.db.jobRuns.countP (succeededRun run.jobID) :=
        List.countP_pos_iff.mpr ⟨run, listed, by simp [succeededRun, done]⟩
      have single := recorded.single run.jobID
      simp only [successes] at single
      omega
  · rcases recorded.runs_step env enabled fun c clock same => second ⟨c, clock, same⟩ with
      ⟨_, _, _, _, runID, clock, row, rfl, -, grown⟩ | neutral
    · rw [grown, List.getElem?_append_left (List.getElem?_eq_some_iff.mp stored).1]
      exact stored
    · obtain ⟨run', located, -, -, same | ⟨undone, -⟩⟩ := getElem?_of_forall₂ neutral stored
      · rw [located, same]
      · exact absurd done undone

/-- Effective first statements of completions, at most one of which a job can have. -/
theorem completes_once {start : Time} {past : List (Step World Action)}
    (run : Run (Next env) (World.init start) past w) (k : UUID) :
    past.countP (completes k) ≤ 1 := by
  -- The first one leaves the row succeeded, where no other can find it in flight.
  refine (run.countP_le_one (completes k)
    (fun w => ∃ row, w.db.jobs.find? k = some row ∧ row.state = .succeeded) ?_ ?_).1
  · rintro w a w' ⟨row, found, done⟩ ⟨-, rfl⟩
    exact ⟨row, World.succeeded_step found done, done⟩
  · rintro w a w' ⟨-, rfl⟩ effective
    obtain ⟨⟨row, found, live⟩, after⟩ := completes_row effective
    refine ⟨?_, after⟩
    rintro ⟨other, located, done⟩
    rw [found, Option.some.injEq] at located
    rw [located, done] at live
    cases live

/--
Success is final and unique.

A succeeded row is never changed, deleted, or claimed, and at most one completion makes it so.
A job has at most one succeeded run, only if it has succeeded itself, and that run stays as it is.
-/
theorem success_final_and_unique {past : List (Step World Action)} (run : Reaches env past w) :
    (∀ e ∈ past, ∀ k row, e.pre.db.jobs.find? k = some row → row.state = .succeeded →
      e.post.db.jobs.find? k = some row ∧ claimsJob k e = false) ∧
    (∀ k, past.countP (completes k) ≤ 1) ∧
    (∀ k, w.db.jobRuns.countP (succeededRun k) ≤ 1 ∧
      (0 < w.db.jobRuns.countP (succeededRun k) →
        ∃ row, w.db.jobs.find? k = some row ∧ row.state = .succeeded)) ∧
    (∀ e ∈ past, ∀ (n : Nat) run, e.pre.db.jobRuns[n]? = some run → run.state = .succeeded →
      e.post.db.jobRuns[n]? = some run) := by
  obtain ⟨start, run⟩ := run
  have recorded := recorded_of_run run
  refine ⟨?_, completes_once run, fun k => ⟨?_, fun some_run => ?_⟩, ?_⟩
  -- Facts about a step are facts about the state it starts from, which was reached too.
  · intro e listed k row found done
    obtain ⟨-, -, made⟩ := run.of_mem listed
    rw [made]
    refine ⟨World.succeeded_step found done, ?_⟩
    by_contra claimed
    rw [Bool.not_eq_false] at claimed
    obtain ⟨other, located, waiting⟩ := claimsJob_row claimed
    rw [found, Option.some.injEq] at located
    rw [← located, done] at waiting
    cases waiting
  · have single := recorded.single k
    simp only [successes] at single
    omega
  · exact recorded.final k (Nat.lt_add_left _ some_run)
  · intro e listed n recordedRun stored done
    obtain ⟨⟨earlier, before⟩, enabled, made⟩ := run.of_mem listed
    rw [made]
    exact (recorded_of_run before).success_kept enabled stored done

/-- A job that one worker claims and completes. -/
def completedRun : List Action :=
  [.submit 0 7 .hook 1 0, .exec 0 2 0, .tick 5,
    .tryClaim 1 "w" 21 60 11 5, .markRunning ⟨1, 21, 11⟩, .tick 9, .completeRow ⟨1, 21, 11⟩ 9,
    .completeRun ⟨1, 21, 11⟩ 9]

theorem success_final_and_unique_completed :
    let w := afterActions (fun _ => .everyMinute) 0 completedRun
    w.db.jobRuns.countP (succeededRun 1) = 1 ∧
      ∃ row, w.db.jobs.find? 1 = some row ∧ row.state = .succeeded := by
  intro w
  have counted : w.db.jobRuns.countP (succeededRun 1) = 1 := by decide +kernel
  have run := reaches_worldTrace (fun _ => .everyMinute) 0 completedRun (by decide +kernel)
  exact ⟨counted, ((success_final_and_unique run).2.2.1 1).2 (by rw [counted]; decide)⟩

end Sluice
