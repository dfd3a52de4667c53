import Sluice.Proofs.Attempts

/-! What a reap leaves behind when the job it was called for is not stale any more. -/

namespace Sluice

open Relational Transition

/-- Closing a run that was open changes it. -/
theorem JobRun.finish_ne {state : State} {now : Time} {error : Option String} {run run' : JobRun}
    (unfinished : run.finishedAt = none) (closed : run.finish state now error = some run') :
    run' ≠ run := by
  -- A closed run has a finishing time.
  rintro rfl
  rw [(JobRun.finish_closed closed).2] at unfinished
  cases unfinished

/-- Closing the open runs of a job changes the recorded runs if there are any. -/
theorem close_runs_eq_self_iff {jobID : UUID} {now : Time} {runs runs' : List JobRun}
    (closed : updateRows? (openRunOf jobID) (JobRun.finish .failed now (some heartbeatExpired))
      runs = some runs') :
    runs' = runs ↔ ∀ run ∈ runs, openRunOf jobID run = false := by
  constructor
  · rintro rfl run listed
    by_contra hit
    rw [Bool.not_eq_false] at hit
    -- The run would have to be its own closed version.
    have rewritten := List.forall₂_same.mp (updateRows?_forall₂ closed) run listed
    rw [if_pos hit] at rewritten
    simp only [openRunOf, Bool.and_eq_true, Option.isNone_iff_eq_none] at hit
    exact JobRun.finish_ne hit.2 rewritten rfl
  · -- A statement that selects nothing changes nothing.
    intro none_open
    rw [updateRows?_of_none none_open, Option.some.injEq] at closed
    exact closed.symm

/--
A reap that finds no stale row changes nothing exactly when the job has no open run.

The one exception is an open run whose duration does not fit, which undoes the whole call.
-/
theorem requeueStaleJob_unreaped_iff {jobID : UUID} {now dbNow : Time} {db : Db}
    (fresh : ∀ row, db.jobs.find? jobID = some row → row.expired dbNow = false) :
    (requeueStaleJob jobID now dbNow db).2.jobs = db.jobs ∧
        (requeueStaleJob jobID now dbNow db).2.jobRuns = db.jobRuns ↔
      (∀ run ∈ db.jobRuns, openRunOf jobID run = false) ∨
        ∃ run ∈ db.jobRuns, openRunOf jobID run = true ∧ elapsedMs run.startedAt now = none := by
  -- The statement on the runs fails exactly on a duration that does not fit.
  have failing : (∃ run ∈ db.jobRuns, openRunOf jobID run = true ∧
      elapsedMs run.startedAt now = none) ↔
      updateRows? (openRunOf jobID) (JobRun.finish .failed now (some heartbeatExpired))
        db.jobRuns = none := by
    simp [updateRows?_eq_none_iff, JobRun.finish]
  rw [failing]
  rcases requeueStaleJob_spec jobID now dbNow db with
    ⟨unfit, done⟩ | ⟨jobRuns, closed, ⟨row, found, late, -⟩ | ⟨-, done⟩⟩
  · -- The call is rolled back.
    rw [done]
    exact ⟨fun _ => .inr unfit, fun _ => ⟨rfl, rfl⟩⟩
  · -- The row is not stale by assumption.
    rw [fresh row found] at late
    cases late
  · -- The call commits, so it is silent only if the first statement was.
    simp only [done, closed, true_and, reduceCtorEq, or_false]
    exact close_runs_eq_self_iff closed

theorem requeueStaleJob_unreaped_completed :
    let db := afterCalls (claimedLife ++ [.completeJob 1 11 21 9])
    (∀ row, db.jobs.find? 1 = some row → row.expired 50 = false) ∧
      (requeueStaleJob 1 50 50 db).2.jobs = db.jobs ∧
      (requeueStaleJob 1 50 50 db).2.jobRuns = db.jobRuns := by
  -- The completion has closed the run and cleared the deadline.
  intro db
  have settled : (db.jobs.find? 1).all (fun row => !row.expired 50) = true := by decide +kernel
  have fresh : ∀ row, db.jobs.find? 1 = some row → row.expired 50 = false := by
    intro row found
    rw [found] at settled
    simpa using settled
  exact ⟨fresh, (requeueStaleJob_unreaped_iff fresh).mpr (.inl (by decide +kernel))⟩

/-- A running job whose heartbeat came after the reaper had listed it. -/
def extendedLife : List Op := claimedLife ++ [.extendDeadline 1 21 100]

theorem requeueStaleJob_closes_live_run :
    ¬ ∀ (past : List (Step Db Op)) (db : Db), Calls past db → ∀ (jobID : UUID) (now dbNow : Time),
      (∀ row, db.jobs.find? jobID = some row → row.expired dbNow = false) →
        (requeueStaleJob jobID now dbNow db).2.jobs = db.jobs ∧
          (requeueStaleJob jobID now dbNow db).2.jobRuns = db.jobRuns := by
  intro silent
  have issued : ∀ op ∈ extendedLife, op.Issued := by
    simp only [extendedLife, List.forall_mem_append, List.forall_mem_cons]
    exact ⟨claimedLife_issued, trivial, by simp⟩
  -- The old deadline has passed, and the new one is far away.
  have settled : ((afterCalls extendedLife).jobs.find? 1).all
      (fun row => !row.expired 32) = true := by decide +kernel
  have closed : (requeueStaleJob 1 32 32 (afterCalls extendedLife)).2.jobRuns ≠
      (afterCalls extendedLife).jobRuns := by decide +kernel
  refine closed (silent _ _ (calls_callTrace issued) 1 32 32 ?_).2
  intro row found
  rw [found] at settled
  simpa using settled

end Sluice
