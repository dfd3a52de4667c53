import Sluice.Proofs.Storage.Specs

/-! Everything a storage call can do to one row of the jobs table. -/

namespace Sluice

open Relational

/--
The effect of a call on the row of one job, with the condition the row met before.

The call that keeps the row is either about another job or found its condition unmet.
-/
inductive RowStep (k : UUID) : Op → Option Job → Option Job → Prop where
  | keep (op : Op) (row : Option Job) : RowStep k op row row
  | insert {j : Job} (named : j.id = k) (fits : fitsInt j.maxRetries = true) :
      RowStep k (.insertJob j) none (some j.inserted)
  | claim {row : Job} {workerID : String} {token : UUID} {deadline : Time} {runID : UUID}
      {now : Time} (waiting : row.state = .pending) :
      RowStep k (.tryClaim k workerID token deadline runID now) (some row)
        (some (claimRow workerID token deadline now row))
  | start {row : Job} {token : UUID} (held : row.claimToken = some token)
      (fresh : row.state = .claimed) :
      RowStep k (.markRunning k token) (some row) (some { row with state := .running })
  | extend {row : Job} {token : UUID} {deadline : Time} (held : row.claimToken = some token)
      (live : row.state.inFlight = true) :
      RowStep k (.extendDeadline k token deadline) (some row)
        (some { row with deadline := some deadline })
  | complete {row : Job} {runID token : UUID} {now : Time} (held : row.claimToken = some token)
      (live : row.state.inFlight = true) :
      RowStep k (.completeJob k runID token now) (some row) (some (succeedRow now row))
  | completeRow {row : Job} {token : UUID} {now : Time} (held : row.claimToken = some token)
      (live : row.state.inFlight = true) :
      RowStep k (.completeRow k token now) (some row) (some (succeedRow now row))
  | fail {row : Job} {runID token : UUID} {errMsg : String} {nextRunAt : Option Time} {now : Time}
      (held : row.claimToken = some token) (live : row.state.inFlight = true) :
      RowStep k (.failJob k runID token errMsg nextRunAt now) (some row)
        (some (failRow row.attempt row.maxRetries errMsg nextRunAt row))
  | requeue {row : Job} {now dbNow : Time} (late : row.expired dbNow = true) :
      RowStep k (.requeueStaleJob k now dbNow) (some row) (some (requeueRow row))
  | promoteScheduled {row : Job} (waiting : row.state = .scheduled) :
      RowStep k (.promoteScheduledToPending k) (some row) (some { row with state := .pending })
  | promoteFailed {row : Job} {dbNow : Time} (waiting : row.state = .failed) :
      RowStep k (.promoteFailedToPending k dbNow) (some row)
        (some { row with state := .pending, runAt := dbNow })
  | cancel {row : Job} {tenantID : UUID}
      (waiting : row.state = .pending ∨ row.state = .scheduled) :
      RowStep k (.cancelJob k tenantID) (some row) none
  | replay {row : Job} {tenantID : UUID} (dead : row.state = .dead) :
      RowStep k (.replayJob k tenantID) (some row) (some (replayRow row))
  | cmdReplay {row : Job} (dead : row.state = .dead) :
      RowStep k (.cmdReplay k) (some row) (some (replayRow row))
  | forceFail {row : Job}
      (unspared : row.state ≠ .scheduled ∧ row.state ≠ .succeeded ∧ row.state ≠ .dead) :
      RowStep k (.cmdForceFail k) (some row) (some (forceFailRow row))

/-- No call touches the columns that say what the job is and whose. -/
theorem RowStep.identity {k : UUID} {op : Op} {old new : Job}
    (step : RowStep k op (some old) (some new)) :
    new.id = old.id ∧ new.tenantID = old.tenantID ∧ new.priority = old.priority ∧
      new.maxRetries = old.maxRetries := by
  -- None of these columns occurs in a `SET` list.
  cases step <;> exact ⟨rfl, rfl, rfl, rfl⟩

/-- A statement whose condition names a job can only take an effect on that job's row. -/
private theorem RowStep.of_update {op : Op} {db : Db} (jobID : UUID) {k : UUID}
    {holds : Job → Bool} {set : Job → Job}
    {keeps : ∀ row : Job, (set row).id = row.id ∧ (set row).idempotency = row.idempotency}
    (pins : ∀ row, holds row = true → row.id = jobID)
    (effect : ∀ row, db.jobs.find? jobID = some row → holds row = true →
      RowStep jobID op (some row) (some (set row))) :
    RowStep k op (db.jobs.find? k) ((db.jobs.update holds set keeps).find? k) := by
  -- Either the row is not touched, or it meets the condition and is the job's own.
  rcases Table.find?_update_cases db.jobs holds set keeps k with same | ⟨row, found, hit, after⟩
  · rw [same]
    exact .keep _ _
  · -- The rewritten row carries both identifiers, so they are one.
    have named : row.id = k := Table.key_of_find? found
    rw [pins row hit] at named
    subst named
    rw [after, found]
    exact effect row found hit

/-- The part of an ownership check that concerns the claim. -/
theorem owned_claim {jobID token : UUID} {row : Job} (hit : owned jobID token row = true) :
    row.claimToken = some token ∧ row.state.inFlight = true := by
  -- The first conjunct of the condition only names the job.
  simp only [owned, Bool.and_eq_true, beq_iff_eq] at hit
  exact ⟨hit.1.2, hit.2⟩

/-- Every call changes the row of each job in one of the listed ways, or not at all. -/
theorem apply_row (op : Op) (db : Db) (k : UUID) :
    RowStep k op (db.jobs.find? k) ((op.apply db).jobs.find? k) := by
  -- Each call has one statement that writes jobs, whose condition names a job.
  cases op with
  | insertJob j =>
    rcases insertJob_spec j db with ⟨jobs, stored, fits, done⟩ | ⟨e, done⟩
    · -- A stored row takes a key that was free.
      have free : db.jobs.find? j.inserted.id = none := Table.find?_of_insert stored
      simp only [Op.apply, done, Table.find?_insert stored k]
      split
      · rename_i named
        rw [← named, free]
        exact .insert rfl fits
      · exact .keep _ _
    · simp only [Op.apply, done]
      exact .keep _ _
  | tryClaim jobID workerID token deadline runID now =>
    rcases tryClaim_spec jobID workerID token deadline runID now db with
      ⟨row, found, waiting, done⟩ | ⟨-, done⟩
    · -- The update asks for the job alone, and the locking read has seen that it is pending.
      simp only [Op.apply, done]
      refine .of_update jobID ?_ fun other here _ => ?_
      · simp
      · rw [found] at here
        cases here
        exact .claim waiting
    · simp only [Op.apply, done]
      exact .keep _ _
  | markRunning jobID token =>
    simp only [Op.apply, markRunning]
    refine .of_update jobID ?_ fun row _ hit => ?_
    · simp +contextual [startable]
    · simp only [startable, Bool.and_eq_true, beq_iff_eq] at hit
      exact .start hit.1.2 hit.2
  | extendDeadline jobID token deadline =>
    simp only [Op.apply, extendDeadline]
    refine .of_update jobID ?_ fun row _ hit => ?_
    · simp +contextual [owned]
    · exact .extend (owned_claim hit).1 (owned_claim hit).2
  | completeJob jobID runID token now =>
    rcases completeJob_spec jobID runID token now db with ⟨row, -, -, done⟩ | ⟨-, done⟩
    · -- The second statement does not reach the jobs table.
      simp only [Op.apply, done, completeRun_jobs, Sluice.completeRow]
      refine .of_update jobID ?_ fun row _ hit => ?_
      · simp +contextual [owned]
      · exact .complete (owned_claim hit).1 (owned_claim hit).2
    · simp only [Op.apply, done]
      exact .keep _ _
  | completeRow jobID token now =>
    simp only [Op.apply, Sluice.completeRow]
    refine .of_update jobID ?_ fun row _ hit => ?_
    · simp +contextual [owned]
    · exact .completeRow (owned_claim hit).1 (owned_claim hit).2
  | completeRun runID now =>
    simp only [Op.apply, completeRun_jobs]
    exact .keep _ _
  | failJob jobID runID token errMsg nextRunAt now =>
    rcases failJob_spec jobID runID token errMsg nextRunAt now db with
      ⟨row, found, hit, jobRuns, -, done⟩ | done
    · -- Here too the ownership was checked by the locking read.
      simp only [Op.apply, done]
      refine .of_update jobID ?_ fun other here _ => ?_
      · simp
      · rw [found] at here
        cases here
        exact .fail (owned_claim hit).1 (owned_claim hit).2
    · simp only [Op.apply, done]
      exact .keep _ _
  | requeueStaleJob jobID now dbNow =>
    rcases requeueStaleJob_spec jobID now dbNow db with
      ⟨-, done⟩ | ⟨jobRuns, -, ⟨row, -, -, done⟩ | ⟨-, done⟩⟩
    · simp only [Op.apply, done]
      exact .keep _ _
    · -- The update repeats the whole condition that makes a claim stale.
      simp only [Op.apply, done]
      refine .of_update jobID ?_ fun row _ hit => ?_
      · simp +contextual [stale]
      · simp only [stale, Bool.and_eq_true] at hit
        exact .requeue hit.2
    · simp only [Op.apply, done]
      exact .keep _ _
  | promoteScheduledToPending jobID =>
    simp only [Op.apply, promoteScheduledToPending]
    refine .of_update jobID ?_ fun row _ hit => ?_
    · simp +contextual
    · simp only [Bool.and_eq_true, beq_iff_eq] at hit
      exact .promoteScheduled hit.2
  | promoteFailedToPending jobID dbNow =>
    simp only [Op.apply, promoteFailedToPending]
    refine .of_update jobID ?_ fun row _ hit => ?_
    · simp +contextual
    · simp only [Bool.and_eq_true, beq_iff_eq] at hit
      exact .promoteFailed hit.2
  | cancelJob jobID tenantID =>
    simp only [Op.apply, cancelJob]
    split
    · exact .keep _ _
    · rcases Table.find?_delete_cases db.jobs (cancellable jobID tenantID) k with
        same | ⟨row, found, hit, gone⟩
      · simp only [same]
        exact .keep _ _
      · -- The deleted row is the one that the call names.
        have named : row.id = k := Table.key_of_find? found
        simp only [cancellable, Bool.and_eq_true, Bool.or_eq_true, beq_iff_eq] at hit
        simp only [gone, found]
        rw [← hit.1.1, named]
        exact .cancel hit.2
  | replayJob jobID tenantID =>
    rcases replayJob_spec jobID tenantID db with ⟨row, -, -, done⟩ | done
    · simp only [Op.apply, done]
      refine .of_update jobID ?_ fun row _ hit => ?_
      · simp +contextual [replayable]
      · simp only [replayable, Bool.and_eq_true, beq_iff_eq] at hit
        exact .replay hit.2
    · simp only [Op.apply, done]
      exact .keep _ _
  | moveToDeadLetter jobID dbNow =>
    simp only [Op.apply, moveToDeadLetter]
    split <;> exact .keep _ _
  | cmdReplay jobID =>
    rcases cmdReplay_spec jobID db with ⟨row, -, -, done⟩ | ⟨e, done⟩
    · simp only [Op.apply, done]
      refine .of_update jobID ?_ fun row _ hit => ?_
      · simp +contextual
      · simp only [Bool.and_eq_true, beq_iff_eq] at hit
        exact .cmdReplay hit.2
    · simp only [Op.apply, done]
      exact .keep _ _
  | cmdForceFail jobID =>
    simp only [Op.apply, cmdForceFail]
    split
    · exact .keep _ _
    · dsimp only
      refine .of_update jobID ?_ fun row _ hit => ?_
      · simp +contextual [forceFailable]
      · -- The listed states are all but the three that are spared.
        refine .forceFail ?_
        cases state : row.state <;> simp [forceFailable, state] at hit ⊢
  -- The schedules are a table of their own.
  | insertSchedule s =>
    simp only [Op.apply, insertSchedule]
    split <;> exact .keep _ _
  | deleteSchedule id tenantID =>
    simp only [Op.apply, deleteSchedule]
    split <;> exact .keep _ _
  | updateScheduleAfterRun id lastRunAt nextRunAt => exact .keep _ _

end Sluice
