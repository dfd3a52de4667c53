import Sluice.Proofs.System.Frames
import Sluice.System.Trace

/-! A failed job sits out its backoff unless a leader promotes it from an outdated read. -/

namespace Sluice

open Relational Transition

variable {env : Nat → Env} {w : World} {a : Action}

/-- Every job that a thread is about to retry was due when it was read. -/
def RetriesDue (w : World) : Prop :=
  ∀ thread j, Task.promoteFailed j ∈ w.threads thread → j.runAt ≤ w.now

/-- No step makes a thread retry a job before the time it was read with. -/
theorem RetriesDue.step (due : RetriesDue w) (enabled : a.Enabled w) :
    RetriesDue (w.step env a) := by
  -- Time only moves on, so it is enough to look at the moment before the step.
  intro thread j listed
  refine Int.le_trans ?_ (World.now_step env enabled)
  cases World.assigned listed with
  | kept old => exact due thread j old
  | @polled _ scan batch read polled member named =>
    -- Only one of the scans leads to such a task, and it reads due rows.
    subst polled
    cases scan with
    | pollFailedJobs =>
      cases named
      obtain ⟨-, hit⟩ := enabled.2.sound member
      simp only [Scan.query, getFailedReadyJobs, Bool.and_eq_true, decide_eq_true_eq] at hit
      exact hit.2
    | _ => cases named

/-- Retries are due throughout every run. -/
theorem retriesDue_of_run {start : Time} {past : List (Step World Action)}
    (run : Run (Next env) (World.init start) past w) : RetriesDue w := by
  -- At the start no thread has anything to do.
  refine run.invariant RetriesDue ?_ ?_
  · intro thread j listed
    cases listed
  · rintro w a w' due ⟨enabled, rfl⟩
    exact due.step enabled

/--
A retry that still finds what its leader has read.

The job is no longer failed, or it has not failed again in the meantime and got a new run time.
-/
def retriesAsRead (e : Step World Action) : Bool :=
  match e.label with
  | .exec thread _ _ =>
    match e.pre.threads thread with
    | .promoteFailed j :: _ => (e.pre.db.jobs.find? j.id).all fun row =>
      row.state != .failed || row.runAt == j.runAt
    | _ => true
  | _ => true

/-- A step in which the operator fails no job by force. -/
def unforced (e : Step World Action) : Bool :=
  match e.label with
  | .cmdForceFail _ => false
  | _ => true

/-- Before its run time, nothing but an outdated retry or force touches a failed row. -/
theorem World.failed_row_kept {k : UUID} {row : Job} (due : RetriesDue w)
    (asRead : retriesAsRead ⟨w, a, w.step env a⟩ = true)
    (gentle : unforced ⟨w, a, w.step env a⟩ = true)
    (found : w.db.jobs.find? k = some row) (state : row.state = .failed)
    (early : w.now < row.runAt) : (w.step env a).db.jobs.find? k = some row := by
  -- Of all effects only a promotion, force, or nothing at all applies to a failed row.
  rcases World.step_row env w a k with same | ⟨op, called, step⟩
  · rw [same, found]
  · rw [found] at step
    generalize (w.step env a).db.jobs.find? k = after at step ⊢
    cases step with
    | keep => rfl
    | promoteFailed =>
      -- The row has the run time that was read, and that time has come.
      cases Action.makes called with
      | promoteFailed head =>
        simp only [retriesAsRead, head, found, Option.all_some, state, bne_self_eq_false,
          Bool.false_or, beq_iff_eq] at asRead
        have ready := due _ _ (head ▸ List.mem_cons_self)
        exact absurd (asRead ▸ early) (Int.not_lt.mpr ready)
    | forceFail =>
      cases Action.makes called with
      | cmdForceFail => cases gentle
    | claim other | promoteScheduled other | replay other | cmdReplay other | start _ other =>
      simp [state] at other
    | extend _ live | complete _ live | completeRow _ live | fail _ live =>
      simp [state, State.inFlight] at live
    | requeue late => simp [Job.expired, state, State.inFlight] at late
    | cancel waiting => simp [state] at waiting

/-- As long as its run time has not come, the job stays failed. -/
def BacksOff (k : UUID) (r : Time) (w : World) : Prop :=
  w.now < r → ∃ row, w.db.jobs.find? k = some row ∧ row.state = .failed ∧ row.runAt = r

/-- A failure report that takes effect and leaves the job failed until the given time. -/
def failsUntil (k : UUID) (r : Time) (e : Step World Action) : Bool :=
  (match e.label with
    | .failJob c _ _ _ => c.jobID == k
    | _ => false) &&
    e.post.db.jobs.find? k != e.pre.db.jobs.find? k &&
    (e.post.db.jobs.find? k).any fun row => row.state == .failed && row.runAt == r

/-- A step that bypasses a backoff: it claims the job, or leaves it pending, before its time. -/
def bypasses (k : UUID) (r : Time) (e : Step World Action) : Bool :=
  decide (e.pre.now < r) &&
    (claimsJob k e || (e.post.db.jobs.find? k).any fun row => row.state == .pending)

/--
Backoff is never bypassed in a run whose retries find what their leaders have read.

Operators may replay jobs in such a run, but they fail none by force.
-/
theorem backoff_not_bypassed {past : List (Step World Action)} (run : Reaches env past w)
    (asRead : ∀ e ∈ past, retriesAsRead e = true) (gentle : ∀ e ∈ past, unforced e = true)
    (earlier : List (Step World Action)) {e : Step World Action} {later : List (Step World Action)}
    (taken : past = earlier ++ e :: later) {k : UUID} {r : Time}
    (failed : failsUntil k r e = true) : ∀ x ∈ later, bypasses k r x = false := by
  obtain ⟨start, run⟩ := run
  subst taken
  obtain ⟨before, step, after⟩ := run.at_step
  -- Suppose some later step bypasses the backoff, and look at the state it starts from.
  intro x listed
  by_contra bypassed
  simp only [bypasses, Bool.not_eq_false, Bool.and_eq_true, Bool.or_eq_true, decide_eq_true_eq,
    Option.any_eq_true, beq_iff_eq] at bypassed
  obtain ⟨early, bypassed⟩ := bypassed
  obtain ⟨between, rest, rfl⟩ := List.append_of_mem listed
  obtain ⟨reached, ⟨enabled, made⟩, -⟩ := after.at_step
  have heeds : ∀ y ∈ between ++ [x], retriesAsRead y = true ∧ unforced y = true := by
    intro y member
    have inside : y ∈ earlier ++ e :: (between ++ x :: rest) := by
      simp only [List.mem_append, List.mem_cons] at member ⊢
      tauto
    exact ⟨asRead y inside, gentle y inside⟩
  -- From the failure up to this step the job has stayed failed.
  have backs : BacksOff k r x.pre ∧ RetriesDue x.pre := by
    simp only [failsUntil, Bool.and_eq_true, Option.any_eq_true, beq_iff_eq] at failed
    refine reached.along (fun w => BacksOff k r w ∧ RetriesDue w) ⟨fun _ => failed.2, ?_⟩ ?_
    · rw [step.2]
      exact (retriesDue_of_run before).step step.1
    · rintro w a w' member ⟨backs, due⟩ ⟨enabled, rfl⟩
      refine ⟨fun still => ?_, due.step enabled⟩
      have waiting := Int.lt_of_le_of_lt (World.now_step env enabled) still
      obtain ⟨row, found, state, rfl⟩ := backs waiting
      obtain ⟨read, calm⟩ := heeds _ (List.mem_append_left _ member)
      exact ⟨row, World.failed_row_kept due read calm found state waiting, state, rfl⟩
  obtain ⟨row, found, state, rfl⟩ := backs.1 early
  rcases bypassed with claimed | ⟨other, located, pending⟩
  · -- Only a pending job can be claimed.
    obtain ⟨other, located, pending⟩ := claimsJob_row claimed
    rw [found, Option.some.injEq] at located
    rw [← located, state] at pending
    cases pending
  · -- The step in question leaves the row failed as well.
    obtain ⟨read, calm⟩ := heeds x (by simp)
    obtain ⟨w, a, w'⟩ := x
    obtain rfl : w' = w.step env a := made
    rw [World.failed_row_kept backs.2 read calm found state early, Option.some.injEq] at located
    rw [← located, state] at pending
    cases pending

/-- A job that its first worker has failed, due again at second sixty-one. -/
def failedOnce : Job :=
  failRow 0 3 "boom" (some (61 * second)) (claimRow "w" 21 (60 * second) 0
    (submittedJob 7 .hook 1 0).inserted)

/-- The first failure of the job. -/
def firstFailure : List Action :=
  [.submit 0 7 .hook 1 0, .exec 0 2 0,
    .tryClaim 1 "w" 21 (60 * second) 11 0, .tick second,
    .failJob ⟨1, 21, 11⟩ "boom" (some (61 * second)) second]

/-- A leader retries the failed job when its time has come. -/
def retriedRun : List Action :=
  firstFailure ++ [.poll 1 .pollFailedJobs [], .tick (62 * second),
    .poll 1 .pollFailedJobs [failedOnce], .exec 1 3 (62 * second), .exec 1 4 (62 * second)]

theorem backoff_not_bypassed_retried :
    ((worldTrace (fun _ => .everyMinute) 0 retriedRun)[4]?.any
        fun e => failsUntil 1 (61 * second) e) = true ∧
      ∀ x ∈ (worldTrace (fun _ => .everyMinute) 0 retriedRun).drop 5,
        bypasses 1 (61 * second) x = false := by
  have run := reaches_worldTrace (fun _ => .everyMinute) 0 retriedRun (by decide +kernel)
  refine ⟨by decide +kernel, ?_⟩
  refine backoff_not_bypassed run (List.all_eq_true.mp (by decide +kernel))
    (List.all_eq_true.mp (by decide +kernel))
    ((worldTrace (fun _ => .everyMinute) 0 retriedRun).take 4) rfl ?_
  decide +kernel

/-- A step that no operator takes: neither a replay nor a failure by force. -/
def operatorFree (e : Step World Action) : Bool :=
  match e.label with
  | .replayJob .. | .cmdReplay .. | .cmdForceFail _ => false
  | _ => true

/--
Two leaders read the failed job, and the slower one promotes it after it has failed again.

The second failure asks for a backoff until second one hundred and eighty-three.
-/
def staleRetryRun : List Action :=
  firstFailure ++ [.tick (62 * second), .poll 1 .pollFailedJobs [failedOnce],
    .poll 2 .pollFailedJobs [failedOnce], .exec 2 3 (62 * second), .exec 2 4 (62 * second),
    .tryClaim 1 "v" 22 (122 * second) 12 (62 * second), .tick (63 * second),
    .failJob ⟨1, 22, 12⟩ "boom" (some (183 * second)) (63 * second), .exec 1 5 (63 * second)]

theorem backoff_bypassed_by_stale_retry :
    ¬ ∀ (env : Nat → Env) (past : List (Step World Action)) (w : World), Reaches env past w →
      (∀ e ∈ past, operatorFree e = true) →
      ∀ earlier e later, past = earlier ++ e :: later → ∀ k r, failsUntil k r e = true →
        ∀ x ∈ later, bypasses k r x = false := by
  intro kept
  have run := reaches_worldTrace (fun _ => .everyMinute) 0 staleRetryRun (by decide +kernel)
  have failed : failsUntil 1 (183 * second)
      ((worldTrace (fun _ => .everyMinute) 0 staleRetryRun).get ⟨12, by decide +kernel⟩) =
        true := by decide +kernel
  have silent := kept _ _ _ run (List.all_eq_true.mp (by decide +kernel))
    ((worldTrace (fun _ => .everyMinute) 0 staleRetryRun).take 12) _
    ((worldTrace (fun _ => .everyMinute) 0 staleRetryRun).drop 13) rfl 1 (183 * second) failed
  -- The promotion by the slower leader is the last step.
  have bypassed : ((worldTrace (fun _ => .everyMinute) 0 staleRetryRun).drop 13).any
      (bypasses 1 (183 * second)) = true := by decide +kernel
  obtain ⟨x, listed, early⟩ := List.any_eq_true.mp bypassed
  rw [silent x listed] at early
  cases early

end Sluice
