import Sluice.Proofs.Storage.Specs

/-! Everything a storage call can do to the recorded runs. -/

namespace Sluice

open Relational

/-- The effect of a call on one recorded run, with what the call met in the database. -/
inductive RunStep (db : Db) : Op → JobRun → JobRun → Prop where
  | keep (op : Op) (run : JobRun) : RunStep db op run run
  | complete {run run' : JobRun} {jobID runID token : UUID} {now : Time} (named : run.id = runID)
      (closed : run.finish .succeeded now run.error = some run') :
      RunStep db (.completeJob jobID runID token now) run run'
  | completeRun {run run' : JobRun} {runID : UUID} {now : Time} (named : run.id = runID)
      (closed : run.finish .succeeded now run.error = some run') :
      RunStep db (.completeRun runID now) run run'
  | fail {run run' : JobRun} {jobID runID token : UUID} {errMsg : String}
      {nextRunAt : Option Time} {now : Time} {row : Job} (named : run.id = runID)
      (found : db.jobs.find? jobID = some row) (hit : owned jobID token row = true)
      (closed : run.finish (failState (row.attempt + 1) row.maxRetries) now (some errMsg) =
        some run') :
      RunStep db (.failJob jobID runID token errMsg nextRunAt now) run run'
  | expire {run run' : JobRun} {jobID : UUID} {now dbNow : Time} (named : run.jobID = jobID)
      (unfinished : run.finishedAt = none)
      (closed : run.finish .failed now (some heartbeatExpired) = some run') :
      RunStep db (.requeueStaleJob jobID now dbNow) run run'

/-- Closing a run leaves the columns that say whose run it is. -/
theorem JobRun.finish_identity {state : State} {now : Time} {error : Option String}
    {run run' : JobRun} (closed : run.finish state now error = some run') :
    run'.id = run.id ∧ run'.jobID = run.jobID ∧ run'.attempt = run.attempt := by
  -- If the duration fits, the new version differs in the closing columns only.
  simp only [JobRun.finish, Option.map_eq_some_iff] at closed
  obtain ⟨duration, -, rfl⟩ := closed
  exact ⟨rfl, rfl, rfl⟩

/-- Closing a run sets its state and its finishing time. -/
theorem JobRun.finish_closed {state : State} {now : Time} {error : Option String}
    {run run' : JobRun} (closed : run.finish state now error = some run') :
    run'.state = state ∧ run'.finishedAt = some now := by
  -- A new version exists only if the duration fits.
  simp only [JobRun.finish, Option.map_eq_some_iff] at closed
  obtain ⟨duration, -, rfl⟩ := closed
  exact ⟨rfl, rfl⟩

/-- No call changes whose run a recorded run is. -/
theorem RunStep.identity {db : Db} {op : Op} {run run' : JobRun}
    (step : RunStep db op run run') :
    run'.id = run.id ∧ run'.jobID = run.jobID ∧ run'.attempt = run.attempt := by
  -- All changes of a recorded run are ways of closing it.
  cases step with
  | keep => exact ⟨rfl, rfl, rfl⟩
  | complete _ closed => exact JobRun.finish_identity closed
  | completeRun _ closed => exact JobRun.finish_identity closed
  | fail _ _ _ closed => exact JobRun.finish_identity closed
  | expire _ _ closed => exact JobRun.finish_identity closed

/-- Runs that nothing touches stay as they are. -/
private theorem runs_keep {db : Db} (op : Op) (runs : List JobRun) :
    List.Forall₂ (RunStep db op) runs runs :=
  List.forall₂_same.mpr fun run _ => .keep op run

/-- A statement on the runs takes its effect on those it selects. -/
private theorem runs_update {db : Db} {op : Op} {holds : JobRun → Bool}
    {set : JobRun → Option JobRun} {runs runs' : List JobRun}
    (updated : updateRows? holds set runs = some runs')
    (effect : ∀ run run', holds run = true → set run = some run' → RunStep db op run run') :
    List.Forall₂ (RunStep db op) runs runs' := by
  -- Each run is either selected and closed, or left as it is.
  refine (updateRows?_forall₂ updated).imp fun run run' change => ?_
  by_cases hit : holds run = true
  · rw [if_pos hit] at change
    exact effect run run' hit change
  · rw [if_neg hit] at change
    rw [change]
    exact .keep op run

/-- A run that a call leaves open was left alone by it. -/
theorem RunStep.eq_of_open {db : Db} {op : Op} {run run' : JobRun}
    (step : RunStep db op run run') (unfinished : run'.finishedAt = none) : run' = run := by
  -- Every other change sets the finishing time.
  cases step with
  | keep => rfl
  | complete _ closed | completeRun _ closed | fail _ _ _ closed | expire _ _ closed =>
    rw [(JobRun.finish_closed closed).2] at unfinished
    cases unfinished

/-- A statement that closes the runs under an identifier leaves none of them open. -/
theorem closed_of_update {runID : UUID} {state : State} {now : Time}
    {error : JobRun → Option String} {runs runs' : List JobRun}
    (updated : updateRows? (fun run => run.id == runID)
      (fun run => run.finish state now (error run)) runs = some runs') {run' : JobRun}
    (listed : run' ∈ runs') (named : run'.id = runID) : run'.finishedAt ≠ none := by
  -- The run was selected under the same identifier, which closing does not change.
  obtain ⟨run, -, change⟩ := mem_of_forall₂ (updateRows?_forall₂ updated) listed
  split at change
  · simp [(JobRun.finish_closed change).2]
  · rename_i missed
    rw [change] at named
    simp [named] at missed

/-- A reap that commits leaves no run of the job open. -/
theorem unopened_of_expire {jobID : UUID} {now : Time} {runs runs' : List JobRun}
    (updated : updateRows? (openRunOf jobID) (JobRun.finish .failed now (some heartbeatExpired))
      runs = some runs') {run' : JobRun} (listed : run' ∈ runs') :
    openRunOf jobID run' = false := by
  -- A selected run is closed, and any other one was not open to begin with.
  obtain ⟨run, -, change⟩ := mem_of_forall₂ (updateRows?_forall₂ updated) listed
  split at change
  · simp [openRunOf, (JobRun.finish_closed change).2]
  · rename_i missed
    rw [change]
    simpa using missed

/-- The second statement of a completion closes the runs with the given identifier. -/
theorem completeRun_runs (runID : UUID) (now : Time) (db : Db) :
    (∃ jobRuns, updateRows? (fun run => run.id == runID)
        (fun run => run.finish .succeeded now run.error) db.jobRuns = some jobRuns ∧
      completeRun runID now db = (.ok (), { db with jobRuns })) ∨
    completeRun runID now db = (.error .outOfRange, db) := by
  -- The statement fails as a whole if one of the durations is out of range.
  unfold completeRun
  cases closed : updateRows? (fun run => run.id == runID)
      (fun run => run.finish .succeeded now run.error) db.jobRuns with
  | none => exact .inr rfl
  | some jobRuns => exact .inl ⟨jobRuns, rfl, rfl⟩

/-- A call opens one run for the row it claims, or changes the recorded runs one by one. -/
theorem apply_runs (op : Op) (db : Db) :
    (∃ jobID workerID token deadline runID now row,
      op = .tryClaim jobID workerID token deadline runID now ∧
      db.jobs.find? jobID = some row ∧ row.state = .pending ∧
      (op.apply db).jobRuns = db.jobRuns ++ [openRun runID now row]) ∨
    ((∀ k, op.claims k db = false) ∧
      List.Forall₂ (RunStep db op) db.jobRuns (op.apply db).jobRuns) := by
  -- Only a claim appends, and four calls have a statement that closes runs.
  cases op with
  | tryClaim jobID workerID token deadline runID now =>
    rcases tryClaim_spec jobID workerID token deadline runID now db with
      ⟨row, found, waiting, done⟩ | ⟨-, done⟩
    · exact .inl ⟨_, _, _, _, _, _, row, rfl, found, waiting, by simp only [Op.apply, done]⟩
    · refine .inr ⟨fun k => by simp [Op.claims, done], ?_⟩
      simp only [Op.apply, done]
      exact runs_keep _ _
  | completeJob jobID runID token now =>
    refine .inr ⟨fun _ => rfl, ?_⟩
    rcases completeJob_spec jobID runID token now db with ⟨row, -, -, done⟩ | ⟨-, done⟩
    · -- The first statement leaves the runs alone, and the second may fail.
      rcases completeRun_runs runID now (completeRow jobID token now db).2 with
        ⟨jobRuns, closed, after⟩ | after
      · simp only [Op.apply, done, after]
        exact runs_update closed fun run run' hit made => .complete (by simpa using hit) made
      · simp only [Op.apply, done, after]
        exact runs_keep _ _
    · simp only [Op.apply, done]
      exact runs_keep _ _
  | completeRun runID now =>
    refine .inr ⟨fun _ => rfl, ?_⟩
    rcases completeRun_runs runID now db with ⟨jobRuns, closed, after⟩ | after
    · simp only [Op.apply, after]
      exact runs_update closed fun run run' hit made => .completeRun (by simpa using hit) made
    · simp only [Op.apply, after]
      exact runs_keep _ _
  | failJob jobID runID token errMsg nextRunAt now =>
    refine .inr ⟨fun _ => rfl, ?_⟩
    rcases failJob_spec jobID runID token errMsg nextRunAt now db with
      ⟨row, found, held, jobRuns, closed, done⟩ | done
    · simp only [Op.apply, done]
      exact runs_update closed fun run run' hit made => .fail (by simpa using hit) found held made
    · simp only [Op.apply, done]
      exact runs_keep _ _
  | requeueStaleJob jobID now dbNow =>
    refine .inr ⟨fun _ => rfl, ?_⟩
    have expire : ∀ jobRuns, updateRows? (openRunOf jobID)
        (JobRun.finish .failed now (some heartbeatExpired)) db.jobRuns = some jobRuns →
        List.Forall₂ (RunStep db (.requeueStaleJob jobID now dbNow)) db.jobRuns jobRuns := by
      intro jobRuns closed
      refine runs_update closed fun run run' hit made => ?_
      simp only [openRunOf, Bool.and_eq_true, beq_iff_eq, Option.isNone_iff_eq_none] at hit
      exact .expire hit.1 hit.2 made
    -- Both committed branches close the open runs, whether or not a row was stale.
    rcases requeueStaleJob_spec jobID now dbNow db with
      ⟨-, done⟩ | ⟨jobRuns, closed, ⟨row, -, -, done⟩ | ⟨-, done⟩⟩
    · simp only [Op.apply, done]
      exact runs_keep _ _
    · simp only [Op.apply, done]
      exact expire jobRuns closed
    · simp only [Op.apply, done]
      exact expire jobRuns closed
  | insertJob j =>
    refine .inr ⟨fun _ => rfl, ?_⟩
    rcases insertJob_spec j db with ⟨jobs, -, -, done⟩ | ⟨e, done⟩ <;>
      simp only [Op.apply, done] <;> exact runs_keep _ _
  | cancelJob jobID tenantID =>
    refine .inr ⟨fun _ => rfl, ?_⟩
    simp only [Op.apply, cancelJob]
    split <;> exact runs_keep _ _
  | replayJob jobID tenantID =>
    refine .inr ⟨fun _ => rfl, ?_⟩
    rcases replayJob_spec jobID tenantID db with ⟨row, -, -, done⟩ | done <;>
      simp only [Op.apply, done] <;> exact runs_keep _ _
  | moveToDeadLetter jobID dbNow =>
    refine .inr ⟨fun _ => rfl, ?_⟩
    simp only [Op.apply, moveToDeadLetter]
    split <;> exact runs_keep _ _
  | cmdReplay jobID =>
    refine .inr ⟨fun _ => rfl, ?_⟩
    rcases cmdReplay_spec jobID db with ⟨row, -, -, done⟩ | ⟨e, done⟩ <;>
      simp only [Op.apply, done] <;> exact runs_keep _ _
  | cmdForceFail jobID =>
    refine .inr ⟨fun _ => rfl, ?_⟩
    simp only [Op.apply, cmdForceFail]
    split <;> exact runs_keep _ _
  | insertSchedule s =>
    refine .inr ⟨fun _ => rfl, ?_⟩
    simp only [Op.apply, insertSchedule]
    split <;> exact runs_keep _ _
  | deleteSchedule id tenantID =>
    refine .inr ⟨fun _ => rfl, ?_⟩
    simp only [Op.apply, deleteSchedule]
    split <;> exact runs_keep _ _
  -- The remaining calls write only the jobs or the schedules.
  | markRunning | extendDeadline | completeRow | promoteScheduledToPending
  | promoteFailedToPending | updateScheduleAfterRun =>
    exact .inr ⟨fun _ => rfl, runs_keep _ _⟩

end Sluice
