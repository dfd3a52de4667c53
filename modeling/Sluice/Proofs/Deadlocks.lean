import Sluice.Proofs.Consistency
import Sluice.Relational.Deadlock
import Sluice.Storage.Statements

/-! The calls that can wait for each other in a circle, and when they do. -/

namespace Sluice

open Relational Transition

namespace TableCall

/-- The call that writes its run under the lock of its job. -/
def rowFirst : TableCall → Bool
  | job (.failJob ..) => true
  | _ => false

/-- The call that locks its job with the runs already written. -/
def logFirst : TableCall → Bool
  | job (.requeueStaleJob ..) => true
  | _ => false

/-- A single statement that commits by itself holds one lock at most. -/
theorem exec_ordered {early late : Bool} (holds : Job → Bool)
    (change : Change Job.id Job.idempotency) (missing : Reply) :
    (Statements.exec holds change missing).Ordered early late false false :=
  .write nofun .finish fun _ => .commit .finish

/-- Only `FailJob` and `RequeueStaleJob` hold two kinds of locks, and in opposite orders. -/
theorem statements_ordered (c : TableCall) :
    c.statements.Ordered c.rowFirst c.logFirst false false := by
  cases c with
  | moveToDeadLetter jobID => exact .read fun _ => .commit .finish
  | cmdReplay jobID =>
    -- The command reads the job without a lock and may stop there.
    refine .read fun row => ?_
    cases row with
    | none => exact .finish
    | some j =>
      dsimp only
      split
      · exact .finish
      · exact exec_ordered _ _ _
  | job call =>
    cases call with
    | tryClaim =>
      -- The new run is visible to nobody else, so only the row is locked.
      exact .lock nofun .finish fun _ =>
        .rewrite (.insertLog (.commit .finish)) fun _ => .insertLog (.commit .finish)
    | completeJob =>
      -- The run is written when the lock of the row is already given back.
      exact .write nofun .finish fun _ => .commit (.updateLog nofun (.commit .finish))
    | failJob =>
      -- The run is written under the lock of the row.
      exact .lock nofun .finish fun _ =>
        .rewrite (.updateLog (fun _ => rfl) (.commit .finish)) fun _ =>
          .updateLog (fun _ => rfl) (.commit .finish)
    | requeueStaleJob =>
      -- The runs are written first, and the row is locked after that.
      exact .updateLog nofun (.write (fun _ => rfl) (.commit .finish) fun _ => .commit .finish)
    | replayJob => exact .write nofun .finish fun _ => .commit (.read fun _ => .finish)
    | markRunning | extendDeadline | promoteScheduledToPending | promoteFailedToPending
    | cancelJob | cmdForceFail => exact exec_ordered _ _ _

/--
Whether a call takes its first lock at a bad moment.

`FailJob` is about to lock a job whose runs an uncommitted `RequeueStaleJob` has closed, or
`RequeueStaleJob` is about to close the runs of a job that an uncommitted `FailJob` has locked.
-/
def crossing {n : Nat} (calls : Fin n → TableCall) (m : JobMachine n) (e : JobEvent n) : Bool :=
  m.crosses (fun i => (calls i).rowFirst) (fun i => (calls i).logFirst) e

/--
No transactions wait for each other in a circle.

Any number of calls are under way on any tables, statement by statement, while jobs are inserted and
transactions are given up, and no failure is reported in the middle of its job's reaping.
-/
theorem not_deadlocked {n : Nat} {calls : Fin n → TableCall} {jobs : Jobs}
    {jobRuns : List JobRun} {m : JobMachine n} {past : List (Step (JobMachine n) (JobEvent n))}
    (run : Run Machine.Happens (launch calls jobs jobRuns) past m)
    (apart : ∀ e ∈ past, crossing calls e.pre e.label = false) : ¬ m.Deadlocked :=
  Machine.not_deadlocked_of_run run
    (fun i => Session.orderly_start _ (statements_ordered (calls i))) (fun _ => rfl) apart

/-- The worker reports a failure at the time the reaper finds the deadline of 30 expired. -/
def lateFailure : Fin 2 → TableCall
  | 0 => .job (.failJob 1 11 21 "HTTP 500" none 41)
  | 1 => .job (.requeueStaleJob 1 41 40)

/-- The two calls on the job that the worker has claimed. -/
def lateMachine : JobMachine 2 :=
  launch lateFailure (afterCalls claimedLife).jobs (afterCalls claimedLife).jobRuns

/-- The reaper closes the runs when the failure is committed. -/
def afterwards : List (JobEvent 2) :=
  [.statement 0, .statement 0, .statement 0, .statement 0, .statement 0, .statement 1, .statement 1,
    .statement 1]

theorem not_deadlocked_afterwards :
    let m := afterwards.foldl Machine.after lateMachine
    m.reply? 0 = some .nil ∧ m.reply? 1 = some (.requeued false) ∧ ¬ m.Deadlocked :=
  ⟨by decide +kernel, by decide +kernel,
    not_deadlocked (Machine.run_of_events lateMachine afterwards (by decide +kernel))
      (by decide +kernel)⟩

/-- The reaper closes the runs when the failure has locked the job and not yet closed its run. -/
def meanwhile : List (JobEvent 2) :=
  [.statement 0, .statement 0, .statement 0, .statement 1, .statement 1]

/-- `FailJob` waits for the run that `RequeueStaleJob` has closed, which waits for the job. -/
theorem fail_requeue_deadlock :
    ¬ ∀ (steps : List (Step Db Op)) (db : Db), Calls steps db →
      ∀ (n : Nat) (calls : Fin n → TableCall) (past : List (Step (JobMachine n) (JobEvent n)))
        (m : JobMachine n),
        Run Machine.Happens (launch calls db.jobs db.jobRuns) past m → ¬ m.Deadlocked := by
  intro free
  -- Each of the two has taken its first lock and asks for the other one's.
  have there : (meanwhile.foldl Machine.after lateMachine).waitsFor 0 1 = true := by
    decide +kernel
  have back : (meanwhile.foldl Machine.after lateMachine).waitsFor 1 0 = true := by
    decide +kernel
  exact free _ _ (calls_callTrace claimedLife_issued) 2 lateFailure _ _
    (Machine.run_of_events lateMachine meanwhile (by decide +kernel))
    ⟨0, .tail (b := 1) (.single there) back⟩

end TableCall

end Sluice
