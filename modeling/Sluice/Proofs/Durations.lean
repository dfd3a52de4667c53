import Mathlib.Algebra.Order.Group.Abs
import Mathlib.Algebra.Order.Group.Int
import Sluice.Proofs.Consistency
import Sluice.Proofs.Storage.Runs
import Sluice.System.Trace

/-! What the duration column says of a run, and when it has no room for the answer. -/

namespace Sluice

open Relational Transition

/-- Whole seconds are within a millisecond of a time only around its full seconds. -/
theorem epochSeconds_near_iff (elapsed : Time) :
    |epochSeconds elapsed * 1000 * 1000 - elapsed| < 1000 ↔
      elapsed % second < 1000 ∨ 999000 < elapsed % second := by
  rw [abs_lt]
  unfold epochSeconds second
  split <;> lia

/-- The duration expression fails beyond two billion milliseconds. -/
theorem elapsedMs_eq_none_iff (start finish : Time) :
    elapsedMs start finish = none ↔
      finish ≤ start - 2147483500000 ∨ start + 2147483500000 ≤ finish := by
  have range : (fitsInt (epochSeconds (finish - start)) &&
      fitsInt (epochSeconds (finish - start) * 1000)) = false ↔
      finish ≤ start - 2147483500000 ∨ start + 2147483500000 ≤ finish := by
    simp only [fitsInt, ← Bool.decide_and, decide_eq_false_iff_not]
    unfold epochSeconds second
    split <;> lia
  rw [← range]
  simp only [elapsedMs]
  split
  · rename_i fits
    simp [fits]
  · rename_i unfit
    simpa using unfit

/-- The clock reading with which a call finishes runs. -/
def Op.finishes : Op → Option Time
  | completeJob _ _ _ now | completeRun _ now | failJob _ _ _ _ _ now
  | requeueStaleJob _ now _ => some now
  | _ => none

/-- A run that a call changes gets the duration up to the clock reading of the call. -/
theorem RunStep.duration {db : Db} {op : Op} {run run' : JobRun} (step : RunStep db op run run')
    (changed : run' ≠ run) {now : Time} (clock : op.finishes = some now) :
    run'.durationMs = some (epochSeconds (now - run.startedAt) * 1000) := by
  -- All four statements write the same expression.
  have closing : ∀ {state error time}, run.finish state time error = some run' → time = now →
      run'.durationMs = some (epochSeconds (now - run.startedAt) * 1000) := by
    intro state error time closed same
    subst same
    obtain ⟨duration, computed, rfl⟩ := Option.map_eq_some_iff.mp closed
    simp only [elapsedMs] at computed
    split at computed
    · exact computed.symm
    · cases computed
  cases step with
  | keep => exact absurd rfl changed
  | complete _ closed | completeRun _ closed | fail _ _ _ closed | expire _ _ closed =>
    exact closing closed (Option.some.inj clock)

/--
A recorded duration is right to the millisecond exactly around full seconds.

The expression rounds to seconds before it multiplies, in all the calls that finish a run.
-/
theorem duration_ms_iff {db : Db} {op : Op} {now : Time} (clock : op.finishes = some now)
    {i : Nat} {run run' : JobRun} (before : db.jobRuns[i]? = some run)
    (after : (op.apply db).jobRuns[i]? = some run') (changed : run' ≠ run) :
    (∃ ms, run'.durationMs = some ms ∧ |ms * 1000 - (now - run.startedAt)| < 1000) ↔
      (now - run.startedAt) % second < 1000 ∨ 999000 < (now - run.startedAt) % second := by
  rcases apply_runs op db with ⟨_, _, _, _, _, _, _, rfl, -⟩ | ⟨-, steps⟩
  · cases clock
  · obtain ⟨other, same, step⟩ := getElem?_of_forall₂ steps before
    rw [after, Option.some.injEq] at same
    rw [← same] at step
    rw [step.duration changed clock, ← epochSeconds_near_iff]
    simp

/-- The run of the job that was claimed at microsecond five. -/
def claimedRun : JobRun :=
  openRun 11 5 (submittedJob 7 (.bare "mail" (.object .nil)) 1 0)

/-- The run as it is recorded after three seconds. -/
def finishedRun : JobRun :=
  { claimedRun with
    state := .succeeded, finishedAt := some (3 * second + 5), durationMs := some 3000 }

theorem duration_ms_full_seconds :
    (Op.apply (.completeJob 1 11 21 (3 * second + 5)) (afterCalls claimedLife)).jobRuns[0]? =
        some finishedRun ∧
      |3000 * 1000 - (3 * second + 5 - claimedRun.startedAt)| < 1000 := by
  have written : (Op.apply (.completeJob 1 11 21 (3 * second + 5))
      (afterCalls claimedLife)).jobRuns[0]? = some finishedRun := by
    decide +kernel
  have exact := (duration_ms_iff rfl (by decide +kernel : _ = some claimedRun) written
    (by decide +kernel)).mpr (.inl (by decide))
  obtain ⟨ms, recorded, near⟩ := exact
  cases recorded
  exact ⟨written, near⟩

theorem short_run_lasts_no_time :
    ¬ ∀ (db : Db) (op : Op) (now : Time), op.finishes = some now →
      ∀ (i : Nat) (run run' : JobRun), db.jobRuns[i]? = some run →
        (op.apply db).jobRuns[i]? = some run' → run' ≠ run →
        run.startedAt ≤ now → now < run.startedAt + 24 * day →
        ∃ ms, run'.durationMs = some ms ∧ |ms * 1000 - (now - run.startedAt)| < 1000 := by
  intro exact
  -- The job takes four hundred milliseconds.
  have recorded := exact (afterCalls claimedLife) (.completeJob 1 11 21 400005) 400005 rfl 0
    claimedRun { claimedRun with
      state := .succeeded, finishedAt := some 400005, durationMs := some 0 }
    (by decide +kernel) (by decide +kernel) (by decide +kernel) (by decide) (by decide)
  obtain ⟨ms, none_left, near⟩ := recorded
  cases none_left
  exact absurd near (by decide)

/--
A reap moves an expired job exactly if every open run of it began within the last two billion
milliseconds.

A single run that is older makes the whole transaction fail, now and at every later time.
-/
theorem reap_moves_iff {db : Db} {k : UUID} {row : Job} {now dbNow : Time}
    (found : db.jobs.find? k = some row) (late : row.expired dbNow = true) :
    ((requeueStaleJob k now dbNow db).1.isOk = true ∧
        ∃ row', (requeueStaleJob k now dbNow db).2.jobs.find? k = some row' ∧
          (row'.state = .pending ∨ row'.state = .dead)) ↔
      ∀ run ∈ db.jobRuns, openRunOf k run = true →
        run.startedAt - 2147483500000 < now ∧ now < run.startedAt + 2147483500000 := by
  -- The statement on the runs fails exactly on a duration that does not fit.
  have failing : updateRows? (openRunOf k) (JobRun.finish .failed now (some heartbeatExpired))
      db.jobRuns = none ↔ ¬ ∀ run ∈ db.jobRuns, openRunOf k run = true →
        run.startedAt - 2147483500000 < now ∧ now < run.startedAt + 2147483500000 := by
    simp only [updateRows?_eq_none_iff, JobRun.finish, Option.map_eq_none_iff,
      elapsedMs_eq_none_iff, not_forall, exists_prop]
    refine exists_congr fun run => and_congr_right fun _ => and_congr_right fun _ => ?_
    lia
  rcases requeueStaleJob_spec k now dbNow db with
    ⟨unfit, done⟩ | ⟨jobRuns, closed, ⟨old, located, -, done⟩ | ⟨fresh, -⟩⟩
  · rw [done]
    exact ⟨fun moved => absurd moved.1 (by simp [Except.isOk, Except.toBool]),
      fun fits => absurd fits (failing.mp unfit)⟩
  · -- The row takes one of the two ways out of the claim.
    rw [done]
    refine ⟨fun _ => ?_, fun _ => ⟨rfl, requeueRow row, ?_, ?_⟩⟩
    · by_contra unfit
      rw [failing.mpr unfit] at closed
      cases closed
    · rw [Table.find?_update, found, Option.map_some, Option.some.injEq]
      exact if_pos (by simp [stale, late, Table.key_of_find? found])
    · simp only [requeueRow]
      split
      · exact .inr rfl
      · exact .inl rfl
  · rw [fresh row found] at late
    cases late

theorem reap_moves_claimed :
    (requeueStaleJob 1 50 50 (afterCalls claimedLife)).1.isOk = true ∧
      ∃ row', (requeueStaleJob 1 50 50 (afterCalls claimedLife)).2.jobs.find? 1 = some row' ∧
        (row'.state = .pending ∨ row'.state = .dead) := by
  have found : (afterCalls claimedLife).jobs.find? 1 = some
      { claimRow "w" 21 30 5 (submittedJob 7 (.bare "mail" (.object .nil)) 1 0).inserted with
        state := .running } := by decide +kernel
  exact (reap_moves_iff found (by decide)).mpr (by decide +kernel)

/-- A worker dies with its claim, and no leader reaps it for twenty-five days. -/
def outageRun : List Action :=
  [.submit 0 7 .hook 1 0, .tryClaim 1 "w" 21 (60 * second) 11 0,
    .tick (25 * day)]

theorem reap_wedged_by_outage :
    ¬ ∀ (env : Nat → Env) (past : List (Step World Action)) (w : World), Reaches env past w →
      ∀ (k : UUID) (row : Job) (clock : Time), w.db.jobs.find? k = some row →
        row.expired w.now = true → clock ≤ w.now →
        (requeueStaleJob k clock w.now w.db).1.isOk = true ∧
          ∃ row', (requeueStaleJob k clock w.now w.db).2.jobs.find? k = some row' ∧
            (row'.state = .pending ∨ row'.state = .dead) := by
  intro moved
  have run := reaches_worldTrace (fun _ => .everyMinute) 0 outageRun (by decide +kernel)
  have reaped := moved _ _ _ run 1
    (claimRow "w" 21 (60 * second) 0
      (submittedJob 7 .hook 1 0).inserted)
    (25 * day) (by decide +kernel) (by decide +kernel) (by decide +kernel)
  -- The run has lasted for 2160000 seconds, whose milliseconds no `INT` column can hold.
  exact absurd reaped.1 (by decide +kernel)

end Sluice
