import Sluice.Proofs.Storage.Rows

/-! The columns of a job's row agree with its state in every reachable database. -/

namespace Sluice

open Relational Transition

/-- The claim and completion columns say the same as the state. -/
structure Job.Consistent (j : Job) : Prop where
  token : j.claimToken.isSome = true ↔ j.deadline.isSome = true
  deadline : j.deadline.isSome = true ↔ j.state = .claimed ∨ j.state = .running
  holder : j.state = .claimed ∨ j.state = .running →
    j.claimedAt.isSome = true ∧ j.claimedBy.isSome = true
  completed : j.completedAt.isSome = true ↔ j.state = .succeeded

/-- A worker holds the job in exactly two states. -/
theorem State.inFlight_iff (s : State) : s.inFlight = true ↔ s = .claimed ∨ s = .running := by
  -- The enumeration has seven values.
  cases s <;> simp [State.inFlight]

/-- Jobs are only ever submitted as pending or scheduled, at their first attempt. -/
theorem Op.Issued.fresh {j : Job} (issued : (Op.insertJob j).Issued) :
    (j.state = .pending ∨ j.state = .scheduled) ∧ j.attempt = 0 := by
  rcases issued with ⟨tenantID, req, id, now, rfl⟩ | ⟨sched, template, id, now, rfl⟩
  · refine ⟨?_, rfl⟩
    -- The requested run time decides between the two states.
    simp only [submittedJob]
    split
    · exact .inr rfl
    · exact .inl rfl
  · -- A cron firing is always pending.
    exact ⟨.inl rfl, rfl⟩

/-- A row that a worker holds is not finished. -/
theorem Job.Consistent.unfinished {j : Job} (consistent : j.Consistent)
    (live : j.state.inFlight = true) : j.completedAt = none := by
  cases done : j.completedAt with
  | none => rfl
  | some _ =>
    -- A completion time belongs to a succeeded row, which nobody holds.
    have state := consistent.completed.mp (by rw [done]; rfl)
    rw [state] at live
    cases live

/-- No issued call breaks the consistency of a row. -/
theorem RowStep.consistent {k : UUID} {op : Op} {before after : Option Job}
    (step : RowStep k op before after) (issued : op.Issued)
    (held : ∀ row, before = some row → row.Consistent) :
    ∀ row, after = some row → row.Consistent := by
  -- One case for each way in which a row can change.
  intro row stored
  cases step with
  | keep => exact held row stored
  | @insert j named =>
    -- A fresh row has no claim, and it is neither held nor finished.
    cases stored
    obtain ⟨waiting, -⟩ := issued.fresh
    rcases waiting with state | state <;>
      exact ⟨by simp [Job.inserted], by simp [Job.inserted, state],
        by simp [Job.inserted, state], by simp [Job.inserted, state]⟩
  | claim waiting =>
    -- A claim fills all four columns at once, on a row that was not finished.
    cases stored
    have old := held _ rfl
    exact ⟨by simp [claimRow], by simp [claimRow], by simp [claimRow],
      by simpa [claimRow, waiting] using old.completed⟩
  | start _ fresh =>
    -- Both states are held, so nothing about the columns changes.
    cases stored
    have old := held _ rfl
    exact ⟨old.token, by simpa [fresh] using old.deadline, fun _ => old.holder (.inl fresh),
      by simpa [fresh] using old.completed⟩
  | extend owner live =>
    -- The condition has seen a token, so there was a deadline before too.
    cases stored
    have old := held _ rfl
    rw [State.inFlight_iff] at live
    exact ⟨by simp [owner], by simp [live], fun _ => old.holder live, old.completed⟩
  | complete | completeRow =>
    -- The claim is cleared in the statement that sets the completion time.
    cases stored
    exact ⟨by simp [succeedRow], by simp [succeedRow], by simp [succeedRow],
      by simp [succeedRow]⟩
  | fail _ live =>
    -- A failed row is not held any more, and it was not finished before.
    cases stored
    have unfinished := (held _ rfl).unfinished live
    simp only [failRow, failState]
    split <;> exact ⟨by simp, by simp, by simp, by simp [unfinished]⟩
  | requeue late =>
    -- The reaper clears the whole claim of a row that was held until now.
    cases stored
    simp only [Job.expired, Bool.and_eq_true] at late
    have unfinished := (held _ rfl).unfinished late.1
    simp only [requeueRow]
    split <;> exact ⟨by simp, by simp, by simp, by simp [unfinished]⟩
  | promoteScheduled waiting | promoteFailed waiting =>
    -- The row was not held before and is not held afterwards.
    cases stored
    have old := held _ rfl
    exact ⟨old.token, by simpa [waiting] using old.deadline, by simp,
      by simpa [waiting] using old.completed⟩
  | cancel => cases stored
  | replay dead | cmdReplay dead =>
    -- A dead row has no completion time, which the reset leaves alone.
    cases stored
    have old := held _ rfl
    exact ⟨by simp [replayRow], by simp [replayRow], by simp [replayRow],
      by simpa [replayRow, dead] using old.completed⟩
  | forceFail unspared =>
    -- Succeeded rows are spared, so the row has no completion time.
    cases stored
    have old := held _ rfl
    exact ⟨by simp [forceFailRow], by simp [forceFailRow], by simp [forceFailRow],
      by simpa [forceFailRow, unspared.2.1] using old.completed⟩

/-- Every row of every reachable database is consistent. -/
theorem Calls.consistent {past : List (Step Db Op)} {db : Db} (run : Calls past db) (k : UUID) :
    ∀ row, db.jobs.find? k = some row → row.Consistent := by
  -- Each call treats the row of one job in one of the ways just considered.
  refine run.invariant (fun db => ∀ row, db.jobs.find? k = some row → row.Consistent) ?_ ?_
  · intro row found
    cases found
  · rintro db op db' held ⟨issued, rfl⟩
    exact (apply_row op db k).consistent issued held

/-- The claim, completion, and state columns agree in every row of every reachable table. -/
theorem calls_rows_consistent {past : List (Step Db Op)} {db : Db} (run : Calls past db) :
    ∀ row ∈ db.jobs.rows, row.Consistent := fun row stored =>
  run.consistent row.id row (Table.mem_rows_iff.mp stored)

/-- A job in the middle of its first attempt. -/
def claimedLife : List Op :=
  [.insertJob (submittedJob 7 (.bare "mail" (.object .nil)) 1 0), .tryClaim 1 "w" 21 30 11 5,
    .markRunning 1 21]

theorem claimedLife_issued : ∀ op ∈ claimedLife, op.Issued := by
  simp only [claimedLife, List.forall_mem_cons]
  exact ⟨.submitted _ _ _ _, trivial, trivial, by simp⟩

theorem calls_rows_consistent_claimed :
    (afterCalls claimedLife).jobs.rows.length = 1 ∧
      ∀ row ∈ (afterCalls claimedLife).jobs.rows, row.Consistent :=
  ⟨by decide +kernel, calls_rows_consistent (calls_callTrace claimedLife_issued)⟩

end Sluice
