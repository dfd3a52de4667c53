import Sluice.Proofs.Attempts
import Sluice.Proofs.RetryDelay
import Sluice.Proofs.System.Outcomes

/-! The next attempt lies ahead of the failure, unless the backoff is negative. -/

namespace Sluice

open Relational Transition

/--
Every failure of a job with the given limit and backoff that leaves another attempt sets a run time
from the moment it is computed to seventy-two minutes later.
-/
def RetriesAhead (maxRetries backoffSeconds : Int) : Prop :=
  ∀ (env : Nat → Env) (past : List (Step Crew CrewAction)) (s : Crew) (worker : Nat)
    (d : ProcessDraw) (succeeds : Bool) (c : Claim) (j : Job) (errMsg : String) (ended : Time)
    (row row' : Job), Crew.Reaches env past s →
    FailureTaken env s worker d succeeds c j errMsg ended row row' → Intn d.intn →
    row.maxRetries = maxRetries → row.backoffSeconds = backoffSeconds → row'.state = .failed →
    d.executedAt ≤ row'.runAt ∧ row'.runAt ≤ d.executedAt + 4320 * second

/-- A database with one job. -/
def Db.single (j : Job) : Db :=
  { Db.empty with jobs := ⟨[j], by simp, by cases entry : j.idempotency <;> simp [entry]⟩ }

/-- A submission with a limit on its attempts and a backoff between them. -/
def backoffRequest (maxRetries backoffSeconds : Int) : SubmitJobRequest :=
  { limitedRequest maxRetries with backoffSeconds := some backoffSeconds }

/-- The job that such a submission stores. -/
def backoffJob (maxRetries backoffSeconds : Int) : Job :=
  (submittedJob 7 (backoffRequest maxRetries backoffSeconds) 1 0).inserted

/-- The job as the worker reads it that has claimed it. -/
def backoffClaimed (maxRetries backoffSeconds : Int) : Job :=
  claimRow "w" 21 (60 * second) 0 (backoffJob maxRetries backoffSeconds)

/-- The row after the first attempt has failed. -/
def backoffFailed (maxRetries backoffSeconds : Int) : Job :=
  failRow 0 maxRetries "webhook returned 500"
    (retryTime (backoffClaimed maxRetries backoffSeconds) failedDraw)
    (backoffClaimed maxRetries backoffSeconds)

/-- The workers after the submission. -/
def backoffSubmitted (maxRetries backoffSeconds : Int) : Crew :=
  { Crew.init 0 with
    world := { World.init 0 with
      db := .single (backoffJob maxRetries backoffSeconds)
      drawn := [1]
      threads := Function.update (fun _ => []) 0 [.queue (backoffJob maxRetries backoffSeconds)] } }

/-- A worker claims the job and fails with its first attempt. -/
def failingAttempt : List CrewAction :=
  [.claim 0 1 "w" 21 11 0 0, .getJob 0, .markRunning 0 true, .system (.tick (8 * second)),
    .execute 0 (.answering 500) false]

variable {maxRetries backoffSeconds : Int}

/-- A submission whose numbers fit their columns is accepted. -/
theorem backoffSubmitted_eq (limit : fitsInt maxRetries = true)
    (backoff : fitsInt backoffSeconds = true) :
    (Crew.init 0).step (fun _ => .everyMinute)
        (.system (.submit 0 7 (backoffRequest maxRetries backoffSeconds) 1 0)) =
      backoffSubmitted maxRetries backoffSeconds := by
  have accepted : insertJob (submittedJob 7 (backoffRequest maxRetries backoffSeconds) 1 0)
      Db.empty = (.ok (), .single (backoffJob maxRetries backoffSeconds)) := by
    have fits : [0, maxRetries, backoffSeconds].find? (fun n => !fitsInt n) = none := by
      simp [limit, backoff, (by decide : fitsInt 0 = true)]
    have checked : [(submittedJob 7 (backoffRequest maxRetries backoffSeconds) 1 0).attempt,
        (submittedJob 7 (backoffRequest maxRetries backoffSeconds) 1 0).maxRetries,
        (submittedJob 7 (backoffRequest maxRetries backoffSeconds) 1 0).backoffSeconds].find?
          (fun n => !fitsInt n) = none := fits
    rw [insertJob, checked]
    rfl
  simp only [Crew.step, CrewAction.action, Option.elim_some, World.step, Action.op, Op.apply,
    Crew.init, World.init, Action.assigns, accepted]
  rfl

/-- A run in which a job with any limit and backoff fails at its first attempt. -/
theorem reaches_first_failure (limit : fitsInt maxRetries = true)
    (backoff : fitsInt backoffSeconds = true) :
    ∃ past s, Crew.Reaches (fun _ => .everyMinute) past s ∧
      FailureTaken (fun _ => .everyMinute) s 0 failedDraw true ⟨1, 21, 11⟩
        (backoffClaimed maxRetries backoffSeconds) "webhook returned 500" (8 * second)
        { backoffClaimed maxRetries backoffSeconds with state := .running }
        (backoffFailed maxRetries backoffSeconds) := by
  -- After the submission nothing that happens depends on the two numbers.
  have run := reaches_crewTrace (fun _ => .everyMinute) 0
    (.system (.submit 0 7 (backoffRequest maxRetries backoffSeconds) 1 0) :: failingAttempt)
  simp only [crewTrace, afterCrew, trace, List.foldl_cons, backoffSubmitted_eq limit backoff] at run
  refine ⟨_, _, run rfl, ?_⟩
  exact
    { enabled := CrewAction.enabled_of_check rfl
      executed := rfl
      before := rfl
      after := rfl
      effective := fun same => by cases congrArg Job.claimToken same }

/--
Retries lie ahead exactly if the backoff is not negative or no attempt is ever repeated.

A job that asks for a negative backoff is accepted like any other.
-/
theorem retries_ahead_iff (limit : fitsInt maxRetries = true)
    (backoff : fitsInt backoffSeconds = true) :
    RetriesAhead maxRetries backoffSeconds ↔ 0 ≤ backoffSeconds ∨ maxRetries ≤ 1 := by
  constructor
  · intro ahead
    by_contra astray
    obtain ⟨negative, more⟩ := not_or.mp astray
    -- The first failure of the job sets a run time before the moment it is computed.
    obtain ⟨past, s, run, taken⟩ := reaches_first_failure limit backoff
    have failed : (backoffFailed maxRetries backoffSeconds).state = .failed :=
      if_neg (by omega)
    have lawful : Intn failedDraw.intn := fun n positive => ⟨Int.le_refl 0, positive⟩
    obtain ⟨soonest, -⟩ := ahead _ _ _ _ _ _ _ _ _ _ _ _ run taken lawful rfl rfl failed
    obtain ⟨-, -, due⟩ := taken.retried run failed
    have low : -2147483648 ≤ backoffSeconds := (of_decide_eq_true backoff).1
    have early : nextRetryAt 1 backoffSeconds failedDraw.intn failedDraw.executedAt =
        failedDraw.executedAt + backoffSeconds * 2 * second :=
      nextRetryAt_one_of_neg (by omega) low _ _
    rw [due] at soonest
    change _ ≤ nextRetryAt 1 backoffSeconds failedDraw.intn failedDraw.executedAt at soonest
    rw [early] at soonest
    unfold second at soonest
    lia
  · rintro sound env past s worker d succeeds c j errMsg ended row row' run taken lawful rfl rfl
      failed
    obtain ⟨more, -, due⟩ := taken.retried run failed
    -- The counter is not negative, so another attempt needs a limit of at least two.
    obtain ⟨ops, reached⟩ := run.world.calls
    have counted := reached.attempt_nonneg c.jobID row taken.before
    have nonneg : 0 ≤ row.backoffSeconds := sound.resolve_right (by omega)
    rw [due]
    obtain ⟨-, rfl⟩ := taken.row_eq run
    exact nextRetryAt_bounds _ lawful nonneg d.executedAt

theorem retries_ahead_default : RetriesAhead 3 30 :=
  (retries_ahead_iff (by decide) (by decide)).mpr (.inl (by decide))

theorem negative_backoff_retries_behind :
    ¬ ∀ maxRetries backoffSeconds, fitsInt maxRetries = true → fitsInt backoffSeconds = true →
      RetriesAhead maxRetries backoffSeconds := by
  intro ahead
  obtain ⟨past, s, run, taken⟩ :=
    reaches_first_failure (show fitsInt 3 = true by decide) (show fitsInt (-1) = true by decide)
  have lawful : Intn failedDraw.intn := fun n positive => ⟨Int.le_refl 0, positive⟩
  -- The attempt fails at second eight, and the next one is due at second six.
  have bounds := ahead 3 (-1) (by decide) (by decide) _ _ _ _ _ _ _ _ _ _ _ _ run taken lawful rfl
    rfl rfl
  exact absurd bounds.1 (by decide +kernel)

end Sluice
