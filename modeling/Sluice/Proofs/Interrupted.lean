import Sluice.Proofs.Consistency
import Sluice.Proofs.Storage.Specs
import Sluice.Storage.Statements

/-! What a call of the claim's lifecycle leaves behind when one of its statements fails. -/

namespace Sluice

open Relational

namespace JobCall

variable {c : JobCall} {jobs : Jobs} {jobRuns : List JobRun} {n : Nat}

/-- All calls of the claim's lifecycle but one commit once, at their end. -/
theorem whole_of_transacted (lifecycle : c.ofClaim = true) (transacted : c.untransacted = false) :
    c.statements.Whole := by
  cases c with
  | tryClaim =>
    refine .lock (.finish _) fun _ => .write ?_ fun _ => ?_
    · exact .insertLog (.commit _)
    · exact .insertLog (.commit _)
  | failJob =>
    refine .lock (.finish _) fun _ => .write ?_ fun _ => ?_
    · exact .updateLog (.commit _)
    · exact .updateLog (.commit _)
  | requeueStaleJob => exact .updateLog (.write (.commit _) fun _ => .commit _)
  | completeJob => cases transacted
  | markRunning | extendDeadline | promoteScheduledToPending | promoteFailedToPending | cancelJob
  | replayJob | cmdForceFail => cases lifecycle

/-- A call that has answered has met no error. -/
theorem not_answered (error : (c.interrupted n jobs jobRuns).reply? 0 = none) (reply : Reply) :
    ((c.interrupted n jobs jobRuns).session 0).program ≠ .finish reply := by
  intro answered
  simp [Machine.reply?, answered] at error

section Completion

variable {jobID runID token : UUID} {now : Time}

/-- `CompleteJob` commits nothing up to the end of its first statement. -/
theorem completeJob_early (early : n ≤ 1) :
    ((completeJob jobID runID token now).interrupted n jobs jobRuns).table = jobs ∧
      ((completeJob jobID runID token now).interrupted n jobs jobRuns).log = jobRuns := by
  -- By then the statement has at most written its own version of the row.
  obtain rfl | rfl := Nat.le_one_iff_eq_zero_or_eq_one.mp early
  · exact ⟨rfl, rfl⟩
  · obtain ⟨table, log, -⟩ := Machine.statement_write
      (m := launch (fun _ : Fin 1 => completeJob jobID runID token now) jobs jobRuns) (i := 0) rfl
      fun _ => Subsingleton.elim _ _
    exact ⟨table, log⟩

/-- `CompleteJob` that fails any later leaves a succeeded row behind. -/
theorem completeJob_late (late : 1 < n)
    (error : ((completeJob jobID runID token now).interrupted n jobs jobRuns).reply? 0 = none) :
    ((completeJob jobID runID token now).interrupted n jobs jobRuns).table ≠ jobs := by
  obtain ⟨k, rfl⟩ := Nat.exists_eq_add_of_lt late
  rw [show 1 + k + 1 = k + 2 by omega] at error ⊢
  cases hit : (jobs.find? jobID).filter (owned jobID token) with
  | none =>
    -- The first statement has found nothing to complete, and the call has answered.
    exact absurd (Machine.advance_missed rfl (fun _ => Subsingleton.elim _ _) hit (k + 1))
      (not_answered error _)
  | some row =>
    have committed : ((completeJob jobID runID token now).interrupted (k + 2) jobs jobRuns).table =
        jobs.update (fun j => j.id == jobID) (succeedRow now) fun _ => ⟨rfl, rfl⟩ :=
      Machine.advance_committed
        (m := launch (fun _ : Fin 1 => completeJob jobID runID token now) jobs jobRuns) (i := 0) rfl
        (fun _ => Subsingleton.elim _ _) (.updateLog (.commit (.finish _))) hit k
    obtain ⟨found, mine⟩ := Option.filter_eq_some_iff.mp hit
    -- A row in flight is not one that has succeeded.
    intro unchanged
    rw [committed] at unchanged
    have same : some (succeedRow now row) = some row := by
      rw [← found, ← unchanged]
      simp [found, Table.key_of_find? found]
    have live : row.state.inFlight = true := (Bool.and_eq_true_iff.mp mine).2
    rw [← Option.some.inj same] at live
    simp [succeedRow, State.inFlight] at live

end Completion

/--
A call of the claim's lifecycle that returns an error has left both tables alone, unless it is
`CompleteJob` and its first statement is already committed.
-/
theorem interrupted_unchanged_iff (c : JobCall) (lifecycle : c.ofClaim = true) (jobs : Jobs)
    (jobRuns : List JobRun) (n : Nat)
    (error : (c.interrupted n jobs jobRuns).reply? 0 = none) :
    ((c.interrupted n jobs jobRuns).table = jobs ∧ (c.interrupted n jobs jobRuns).log = jobRuns) ↔
      (c.untransacted = true → n ≤ 1) := by
  -- Only the call without a transaction can stop between two commits.
  by_cases transacted : c.untransacted = true
  · cases c with
    | completeJob =>
      constructor
      · rintro ⟨table, -⟩ -
        by_contra late
        exact completeJob_late (by omega) error table
      · exact fun early => completeJob_early (early transacted)
    | _ => cases transacted
  · have whole := whole_of_transacted lifecycle (by simpa using transacted)
    refine iff_of_true ?_ fun other => absurd other transacted
    rcases Machine.advance_whole (m := launch (fun _ : Fin 1 => c) jobs jobRuns) (i := 0) whole n
      with ⟨reply, answered⟩ | kept
    · exact absurd answered (not_answered error reply)
    · exact kept

theorem interrupted_unchanged_failing :
    let db := afterCalls claimedLife
    let m := (failJob 1 11 21 "HTTP 500" none 9).interrupted 2 db.jobs db.jobRuns
    m.reply? 0 = none ∧ m.table = db.jobs ∧ m.log = db.jobRuns :=
  have stopped : ((failJob 1 11 21 "HTTP 500" none 9).interrupted 2 (afterCalls claimedLife).jobs
      (afterCalls claimedLife).jobRuns).reply? 0 = none := by
    decide +kernel
  ⟨stopped, (interrupted_unchanged_iff _ rfl _ _ 2 stopped).mpr nofun⟩

/-- A completion that cannot close its run has marked the job succeeded all the same. -/
theorem interrupted_completion :
    ¬ ∀ (c : JobCall) (jobs : Jobs) (jobRuns : List JobRun) (n : Nat), c.ofClaim = true →
      (c.interrupted n jobs jobRuns).reply? 0 = none →
        (c.interrupted n jobs jobRuns).table = jobs ∧
          (c.interrupted n jobs jobRuns).log = jobRuns := by
  intro unchanged
  have rows := congrArg (fun t => t.rows.map (·.state)) (unchanged (.completeJob 1 11 21 9)
    (afterCalls claimedLife).jobs (afterCalls claimedLife).jobRuns 2 rfl (by decide +kernel)).1
  exact absurd rows (by decide +kernel)

end JobCall

end Sluice
