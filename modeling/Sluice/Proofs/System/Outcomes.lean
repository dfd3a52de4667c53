import Sluice.Proofs.System.Crew

/-! What a worker reports about a failed execution, and what `FailJob` makes of it. -/

namespace Sluice

open Relational Transition

variable {env : Nat → Env}

/-- A worker records a failed execution, and `FailJob` takes effect on the row. -/
structure FailureTaken (env : Nat → Env) (s : Crew) (worker : Nat) (d : ProcessDraw)
    (succeeds : Bool) (c : Claim) (j : Job) (errMsg : String) (ended : Time) (row row' : Job) :
    Prop where
  enabled : (CrewAction.record worker d succeeds).Enabled s
  executed : s.stages worker = .executed c j (.error errMsg) ended
  before : s.world.db.jobs.find? c.jobID = some row
  after : (s.step env (.record worker d succeeds)).world.db.jobs.find? c.jobID = some row'
  effective : row' ≠ row

/-- The run time that a worker asks for after a failure. -/
def retryTime (j : Job) (d : ProcessDraw) : Option Time :=
  if j.shouldRetry then some (nextRetryAt (j.attempt + 1) j.backoffSeconds d.intn d.executedAt)
  else none

variable {past : List (Step Crew CrewAction)} {s : Crew} {worker : Nat} {d : ProcessDraw}
  {succeeds : Bool} {c : Claim} {j : Job} {errMsg : String} {ended : Time} {row row' : Job}

/-- The call that records a failure. -/
theorem recorded_failure (c : Claim) (j : Job) (errMsg : String) (d : ProcessDraw) :
    (CrewAction.recorded c j (.error errMsg) d).1 =
      .failJob c.jobID c.runID c.token errMsg (retryTime j d) d.recordedAt := rfl

/-- The worker's snapshot agrees with the row on which `FailJob` takes effect. -/
theorem FailureTaken.row_eq
    (taken : FailureTaken env s worker d succeeds c j errMsg ended row row')
    (run : Crew.Reaches env past s) :
    row.Agrees j ∧ row' = failRow row.attempt row.maxRetries errMsg (retryTime j d) row := by
  obtain ⟨enabled, executed, before, after, effective⟩ := taken
  cases called : (CrewAction.record worker d succeeds).action s with
  | none =>
    -- A call that fails leaves the row as it was.
    simp only [Crew.step, called, Option.elim_none, before, Option.some.injEq] at after
    exact absurd after.symm effective
  | some b =>
    simp only [Crew.step, called, Option.elim_some] at after
    simp only [CrewAction.action, executed] at called
    split at called
    · -- The call is `FailJob`, which writes the row only under the worker's token.
      rw [recorded_failure] at called
      cases called
      rcases World.step_row env s.world _ c.jobID with same | ⟨op, made, step⟩
      · rw [same, before, Option.some.injEq] at after
        exact absurd after.symm effective
      · cases made
        rw [before, after] at step
        cases step with
        | keep => exact absurd rfl effective
        | fail held live =>
          have agrees := run.sound.agrees worker c j (by rw [executed]; rfl) row before held
          exact ⟨agrees, rfl⟩
    · cases called

/-- The record step comes after the execution. -/
theorem FailureTaken.ended_le
    (taken : FailureTaken env s worker d succeeds c j errMsg ended row row') :
    ended ≤ d.executedAt := by
  -- The clock is read for the retry after it was read for the execution.
  have ready := taken.enabled.1
  simp only [CrewAction.ready, taken.executed, decide_eq_true_eq] at ready
  exact ready.1

/-- The label under which a metric counts an outcome. -/
def Metric.stateLabel : Metric → Option String
  | jobsTotal _ state _ | jobDurationSeconds _ state _ _ => some state
  | _ => none

/-- Whether a metric counts a retry. -/
def Metric.countsRetry : Metric → Bool
  | jobRetriesTotal .. => true
  | _ => false

/-- The metrics count the outcome as the given state, and a retry exactly for a failed job. -/
def ReportedAs (state : State) (counted : List Metric) : Prop :=
  counted.filterMap Metric.stateLabel = [state.label, state.label] ∧
    (counted.any Metric.countsRetry = true ↔ state = .failed)

/-- What a worker counts for a failed execution. -/
theorem counts_failure (d : ProcessDraw) (succeeds : Bool)
    (executed : s.stages worker = .executed c j (.error errMsg) ended) :
    ((CrewAction.record worker d succeeds).counts s).filterMap Metric.stateLabel =
        (if j.shouldRetry then ["failed", "failed"] else ["dead", "dead"]) ∧
      ((CrewAction.record worker d succeeds).counts s).any Metric.countsRetry = j.shouldRetry := by
  -- Both counters get the label that the worker computes from its snapshot.
  simp only [CrewAction.counts, executed, CrewAction.recorded, recording]
  cases j.shouldRetry <;> exact ⟨rfl, rfl⟩

/--
The worker reports what `FailJob` records exactly if the attempt is not the last one allowed.

The worker asks whether the attempt before this one is below the limit, and `FailJob` asks it of
this one.
-/
theorem outcome_reported_iff (run : Crew.Reaches env past s)
    (taken : FailureTaken env s worker d succeeds c j errMsg ended row row') :
    ReportedAs row'.state ((CrewAction.record worker d succeeds).counts s) ↔
      row.attempt + 1 ≠ row.maxRetries := by
  obtain ⟨agrees, rfl⟩ := taken.row_eq run
  obtain ⟨labels, retries⟩ := counts_failure d succeeds taken.executed
  -- The snapshot says the same as the row, but the comparison is a different one.
  have retry : j.shouldRetry = decide (row.attempt < row.maxRetries) := by
    rw [Job.shouldRetry, agrees.attempt, agrees.maxRetries]
  unfold ReportedAs
  rw [labels, retries, retry]
  simp only [failRow, failState]
  by_cases last : row.attempt + 1 ≥ row.maxRetries
  · by_cases below : row.attempt < row.maxRetries
    · -- The job is dead, and the worker still counts a retry.
      have boundary : row.attempt + 1 = row.maxRetries := by omega
      simp [below, boundary, State.label]
    · -- Beyond the limit both say that the job is dead.
      have beyond : row.attempt + 1 ≠ row.maxRetries := by omega
      simp [last, below, beyond, State.label]
  · have below : row.attempt < row.maxRetries := by omega
    have within : row.attempt + 1 ≠ row.maxRetries := by omega
    simp [last, below, within, State.label]

/-- A submission with a limit on its attempts. -/
def limitedRequest (maxRetries : Int) : SubmitJobRequest :=
  { SubmitJobRequest.hook with maxRetries := some maxRetries }

/-- A worker has carried out such a job for eight seconds and got an error as its answer. -/
def failedExecution (maxRetries : Int) : List CrewAction :=
  [.system (.submit 0 7 (limitedRequest maxRetries) 1 0), .claim 0 1 "w" 21 11 0 0, .getJob 0,
    .markRunning 0 true, .system (.tick (8 * second)), .execute 0 (.answering 500) false]

/-- The job as that worker has read it. -/
def limitedJob (maxRetries : Int) : Job :=
  claimRow "w" 21 (60 * second) 0 (submittedJob 7 (limitedRequest maxRetries) 1 0).inserted

/-- What the worker draws and reads when it records the failure. -/
def failedDraw : ProcessDraw where
  token := 21
  runID := 11
  began := 0
  claimedAt := 0
  beats := []
  dur := 8 * second
  executedAt := 8 * second
  recordedAt := 8 * second
  intn _ := 0
  web := .answering 500

/-- The first of three attempts fails. -/
theorem failureTaken_first :
    FailureTaken (fun _ => .everyMinute) (afterCrew (fun _ => .everyMinute) 0 (failedExecution 3)) 0
      failedDraw true ⟨1, 21, 11⟩ (limitedJob 3) "webhook returned 500" (8 * second)
      { limitedJob 3 with state := .running }
      (failRow 0 3 "webhook returned 500" (some (56 * second)) (limitedJob 3)) where
  enabled := CrewAction.enabled_of_check (by decide +kernel)
  executed := by decide +kernel
  before := by decide +kernel
  after := by decide +kernel
  effective := by decide +kernel

theorem outcome_reported_first :
    ReportedAs .failed ((CrewAction.record 0 failedDraw true).counts
      (afterCrew (fun _ => .everyMinute) 0 (failedExecution 3))) := by
  have run := reaches_crewTrace (fun _ => .everyMinute) 0 (failedExecution 3) (by decide +kernel)
  exact (outcome_reported_iff run failureTaken_first).mpr (by decide)

/-- The only attempt fails. -/
theorem failureTaken_only :
    FailureTaken (fun _ => .everyMinute) (afterCrew (fun _ => .everyMinute) 0 (failedExecution 1)) 0
      failedDraw true ⟨1, 21, 11⟩ (limitedJob 1) "webhook returned 500" (8 * second)
      { limitedJob 1 with state := .running }
      (failRow 0 1 "webhook returned 500" none (limitedJob 1)) where
  enabled := CrewAction.enabled_of_check (by decide +kernel)
  executed := by decide +kernel
  before := by decide +kernel
  after := by decide +kernel
  effective := by decide +kernel

theorem outcome_misreported :
    ¬ ∀ (env : Nat → Env) (past : List (Step Crew CrewAction)) (s : Crew) (worker : Nat)
      (d : ProcessDraw) (succeeds : Bool) (c : Claim) (j : Job) (errMsg : String) (ended : Time)
      (row row' : Job), Crew.Reaches env past s →
      FailureTaken env s worker d succeeds c j errMsg ended row row' →
      ReportedAs row'.state ((CrewAction.record worker d succeeds).counts s) := by
  intro reported
  have run := reaches_crewTrace (fun _ => .everyMinute) 0 (failedExecution 1) (by decide +kernel)
  -- The job is dead, and the worker counts it as failed.
  have labels := (reported _ _ _ _ _ _ _ _ _ _ _ _ run failureTaken_only).1
  exact absurd labels (by decide +kernel)

/-- A job that is left failed is due when the worker has computed it to be. -/
theorem FailureTaken.retried
    (taken : FailureTaken env s worker d succeeds c j errMsg ended row row')
    (run : Crew.Reaches env past s) (failed : row'.state = .failed) :
    row.attempt + 1 < row.maxRetries ∧ retryTime j d = some row'.runAt ∧
      row'.runAt = nextRetryAt row'.attempt row'.backoffSeconds d.intn d.executedAt := by
  obtain ⟨agrees, rfl⟩ := taken.row_eq run
  -- A job that is left failed has not used up its attempts.
  have more : ¬ row.attempt + 1 ≥ row.maxRetries := by
    intro last
    simp [failRow, failState, last] at failed
  -- An attempt below the last one is also below the limit, so the worker has set a time.
  have retry : j.shouldRetry = true := by
    simp only [Job.shouldRetry, ← agrees.attempt, ← agrees.maxRetries, decide_eq_true_eq]
    omega
  have asked : retryTime j d =
      some (nextRetryAt (row.attempt + 1) row.backoffSeconds d.intn d.executedAt) := by
    rw [retryTime, if_pos retry, agrees.attempt, agrees.backoffSeconds]
  have stored : (failRow row.attempt row.maxRetries errMsg (retryTime j d) row).runAt =
      nextRetryAt (row.attempt + 1) row.backoffSeconds d.intn d.executedAt := by
    rw [asked]
    simp [failRow, failRunAt, more]
  exact ⟨Int.not_le.mp more, by rw [stored, asked], stored⟩

/--
A retry gets the backoff of its own attempt.

A job that `FailJob` leaves failed has the run time that the worker has computed after the end of
the execution, from the attempt that the row now shows.
-/
theorem retry_backoff_own (run : Crew.Reaches env past s)
    (taken : FailureTaken env s worker d succeeds c j errMsg ended row row')
    (failed : row'.state = .failed) :
    (CrewAction.recorded c j (.error errMsg) d).1 =
        .failJob c.jobID c.runID c.token errMsg (some row'.runAt) d.recordedAt ∧
      row'.runAt = nextRetryAt row'.attempt row'.backoffSeconds d.intn d.executedAt ∧
      ended ≤ d.executedAt := by
  obtain ⟨-, asked, stored⟩ := taken.retried run failed
  refine ⟨?_, stored, taken.ended_le⟩
  rw [recorded_failure, asked]

theorem retry_backoff_own_first :
    (failRow 0 3 "webhook returned 500" (some (56 * second)) (limitedJob 3)).runAt =
      nextRetryAt 1 30 (fun _ => 0) (8 * second) := by
  have run := reaches_crewTrace (fun _ => .everyMinute) 0 (failedExecution 3) (by decide +kernel)
  exact (retry_backoff_own run failureTaken_first rfl).2.1

end Sluice
