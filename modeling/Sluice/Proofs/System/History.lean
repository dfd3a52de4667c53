import Sluice.Proofs.System.Backoff
import Sluice.Proofs.System.Success

/-! Recorded runs keep their job, unless a job that has run before is cancelled. -/

namespace Sluice

open Relational Transition

variable {env : Nat → Env} {w : World} {a : Action}

/-- Every recorded run belongs to a stored job. -/
def HistoryKept (db : Db) : Prop := ∀ run ∈ db.jobRuns, (db.jobs.find? run.jobID).isSome = true

/-- A cancellation that deletes a job with recorded runs. -/
def erasesHistory (e : Step World Action) : Bool :=
  match e.label with
  | .cancelJob jobID tenantID => (cancelJob jobID tenantID e.pre.db).1.isOk &&
    e.pre.db.jobRuns.any fun run => run.jobID == jobID
  | _ => false

/-- The dashboard's join shows every run exactly if all of them keep their job. -/
theorem historyKept_iff_joined (db : Db) :
    HistoryKept db ↔ db.joinedRuns.map Prod.fst = db.jobRuns := by
  unfold HistoryKept Db.joinedRuns
  -- Each run is joined with its job on its own, so the induction is on the runs.
  induction db.jobRuns with
  | nil => simp
  | cons run runs ih =>
    cases found : db.jobs.find? run.jobID with
    | some j => simp [found, ih]
    | none =>
      -- A run without a job makes the joined list too short.
      simp only [List.forall_mem_cons, found, Option.isSome_none, Bool.false_eq_true, false_and,
        List.filterMap_cons_none, Option.map_none, false_iff]
      intro same
      have short := List.length_filterMap_le
        (fun run => (db.jobs.find? run.jobID).map fun j => (run, j.type)) runs
      have long := congrArg List.length same
      simp only [List.length_map, List.length_cons] at long
      omega

/-- With distinct identifiers the runs can be copied exactly if all of them keep their job. -/
theorem historyKept_iff_unpartition {db : Db} (distinct : (db.jobRuns.map JobRun.id).Nodup) :
    HistoryKept db ↔ db.unpartitionRuns = some db.jobRuns := by
  unfold HistoryKept Db.unpartitionRuns
  constructor
  · -- The copy fails on a run without a job or on two with the same identifier.
    intro kept
    rw [if_pos ⟨distinct, kept⟩]
  · intro copied
    split at copied
    · rename_i restored
      exact restored.2
    · cases copied

/-- A run that is recorded after a step was recorded before, or its job is stored now. -/
theorem World.run_origin {run : JobRun} (listed : run ∈ (w.step env a).db.jobRuns) :
    (∃ old ∈ w.db.jobRuns, old.jobID = run.jobID) ∨
      ((w.step env a).db.jobs.find? run.jobID).isSome = true := by
  cases called : a.op env w with
  | none =>
    rw [World.step_db_none called] at listed
    exact .inl ⟨run, listed, rfl⟩
  | some op =>
    rw [World.step_db_some called] at listed ⊢
    rcases apply_runs op w.db with
      ⟨jobID, workerID, token, deadline, runID, now, row, rfl, found, -, grown⟩ | ⟨-, changed⟩
    · rw [grown, List.mem_append, List.mem_singleton] at listed
      rcases listed with old | rfl
      · exact .inl ⟨run, old, rfl⟩
      · -- The new run belongs to the row that the claim has found, which a claim does not delete.
        right
        have step := apply_row (.tryClaim jobID workerID token deadline runID now) w.db jobID
        rw [openRun, Table.key_of_find? found]
        rw [found] at step
        generalize ((Op.tryClaim jobID workerID token deadline runID now).apply w.db).jobs.find?
          jobID = after at step ⊢
        cases step <;> rfl
    · -- Every other call rewrites the runs one by one.
      obtain ⟨old, member, step⟩ := mem_of_forall₂ changed listed
      exact .inl ⟨old, member, step.identity.2.1.symm⟩

/-- A job disappears only when it is cancelled. -/
theorem World.row_gone {k : UUID} {row : Job} (found : w.db.jobs.find? k = some row)
    (gone : (w.step env a).db.jobs.find? k = none) :
    ∃ tenantID, a = .cancelJob k tenantID ∧ (cancelJob k tenantID w.db).1.isOk = true := by
  rcases World.step_row env w a k with same | ⟨op, called, step⟩
  · rw [same, found] at gone
    cases gone
  · rw [found, gone] at step
    -- Of all effects on a row only one leaves none.
    cases step with
    | @cancel _ tenantID waiting =>
      cases Action.makes called with
      | cancelJob =>
        refine ⟨tenantID, rfl, ?_⟩
        rcases cancelJob_spec k tenantID w.db with ⟨-, -, -, done, -⟩ | ⟨-, done⟩
        · rw [done]
          rfl
        · -- A refused cancellation would have left the row.
          rw [World.step_db_some called, Op.apply, done, found] at gone
          cases gone

/-- A step separates a run from its job exactly if it erases the history of a job. -/
theorem HistoryKept.step_iff (kept : HistoryKept w.db) :
    HistoryKept (w.step env a).db ↔ erasesHistory ⟨w, a, w.step env a⟩ = false := by
  constructor
  · intro after
    -- A job that was cancelled is no longer there for its runs.
    by_contra erased
    cases a with
    | cancelJob jobID tenantID =>
      simp only [erasesHistory, Bool.not_eq_false, Bool.and_eq_true, List.any_eq_true,
        beq_iff_eq] at erased
      obtain ⟨success, run, listed, named⟩ := erased
      rw [World.step_db_some (rfl : Action.op env w (.cancelJob jobID tenantID) = _)] at after
      rcases cancelJob_spec jobID tenantID w.db with ⟨-, -, -, done, gone⟩ | ⟨-, done⟩
      · simp only [Op.apply, done] at after
        have stored := after run listed
        rw [named, gone] at stored
        cases stored
      · rw [done] at success
        cases success
    | _ => exact erased rfl
  · intro spared run listed
    rcases World.run_origin listed with ⟨old, member, same⟩ | stored
    · obtain ⟨row, found⟩ := Option.isSome_iff_exists.mp (kept old member)
      rw [same] at found
      by_contra missing
      -- The job of the old run has disappeared in this step.
      have gone : (w.step env a).db.jobs.find? run.jobID = none := by
        simpa using missing
      obtain ⟨tenantID, rfl, success⟩ := World.row_gone found gone
      have erased : w.db.jobRuns.any (fun run' => run'.jobID == run.jobID) = true :=
        List.any_eq_true.mpr ⟨old, member, by simp [same]⟩
      simp only [erasesHistory, success, erased] at spared
      cases spared
    · exact stored

/--
The runs keep their jobs all along exactly if no cancellation deletes a job that has run before.

Where they do, the dashboard shows every run and the references to the jobs can be restored.
-/
theorem run_history_kept_iff {past : List (Step World Action)} (run : Reaches env past w) :
    ((∀ e ∈ past, HistoryKept e.post.db) ↔ ∀ e ∈ past, erasesHistory e = false) ∧
      (HistoryKept w.db ↔ w.db.joinedRuns.map Prod.fst = w.db.jobRuns) ∧
      (HistoryKept w.db ↔ w.db.unpartitionRuns = some w.db.jobRuns) := by
  obtain ⟨start, run⟩ := run
  refine ⟨run.always_iff (fun w => HistoryKept w.db) erasesHistory ?_ ?_,
    historyKept_iff_joined w.db, historyKept_iff_unpartition (recorded_of_run run).distinct⟩
  · intro run listed
    cases listed
  · rintro past w a w' - kept ⟨-, rfl⟩
    exact kept.step_iff

theorem run_history_kept_retried :
    (∀ e ∈ worldTrace (fun _ => .everyMinute) 0 retriedRun, erasesHistory e = false) ∧
      ∀ e ∈ worldTrace (fun _ => .everyMinute) 0 retriedRun, HistoryKept e.post.db := by
  have run := reaches_worldTrace (fun _ => .everyMinute) 0 retriedRun (by decide +kernel)
  have spared : ∀ e ∈ worldTrace (fun _ => .everyMinute) 0 retriedRun, erasesHistory e = false := by
    decide +kernel
  exact ⟨spared, (run_history_kept_iff run).1.mpr spared⟩

/-- A job that has failed once is cancelled while it waits for its second attempt. -/
def cancelledRetry : List Action := retriedRun ++ [.cancelJob 1 7]

theorem run_history_lost :
    ¬ ∀ (env : Nat → Env) (past : List (Step World Action)) (w : World), Reaches env past w →
      HistoryKept w.db ∧ w.db.joinedRuns.map Prod.fst = w.db.jobRuns ∧
        w.db.unpartitionRuns = some w.db.jobRuns := by
  intro kept
  have run := reaches_worldTrace (fun _ => .everyMinute) 0 cancelledRetry (by decide +kernel)
  -- The run of the first attempt is still recorded, and the join no longer shows it.
  have recorded : (afterActions (fun _ => .everyMinute) 0 cancelledRetry).db.jobRuns.length = 1 :=
    by decide +kernel
  have hidden : (afterActions (fun _ => .everyMinute) 0 cancelledRetry).db.joinedRuns = [] := by
    decide +kernel
  have shown := (kept _ _ _ run).2.1
  rw [hidden] at shown
  rw [← shown] at recorded
  cases recorded

end Sluice
