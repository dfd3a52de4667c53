import Sluice.Proofs.Storage.Runs
import Sluice.Relational.Serializable
import Sluice.Storage.Statements

/-! Concurrent calls on jobs act as if one after the other, statement by statement. -/

namespace Sluice

open Relational Transition

/-- What no statement changes of a run: its own identifier, its job, and its attempt. -/
def JobRun.identity (run : JobRun) : UUID × UUID × Int := (run.id, run.jobID, run.attempt)

/-- Closing a run does not change what run it is. -/
theorem JobRun.identity_finish {state : State} {now : Time} {error : Option String}
    {run run' : JobRun} (closed : run.finish state now error = some run') :
    run'.identity = run.identity := by
  -- The closing columns are the finishing time, the state, the error, and the duration.
  obtain ⟨id, jobID, attempt⟩ := JobRun.finish_identity closed
  simp only [identity, id, jobID, attempt]

namespace JobCall

/-- A call that waits for its lock, logs nothing, and whose answer is not observed. -/
def unobserved (jobID : UUID) (holds : Job → Bool) (change : Job → Change Job.id Job.idempotency) :
    RowCall Job.id Job.idempotency JobRun Reply :=
  { target := jobID, holds, change, entries := fun _ => [], skips := false
    agrees := fun _ _ => True }

/-- What a call amounts to as one step on the row of its job. -/
def row : JobCall → RowCall Job.id Job.idempotency JobRun Reply
  | tryClaim jobID workerID token deadline runID now =>
    { target := jobID
      holds := claimable jobID
      change := fun _ => setColumns (claimRow workerID token deadline now)
        (claimRow_keeps workerID token deadline now)
      entries := fun j => [openRun runID now (claimRow workerID token deadline now j)]
      skips := true
      agrees := fun won reply => reply = if won then .claimed runID else .unclaimed }
  | markRunning jobID token => unobserved jobID (startable jobID token) fun _ =>
    setColumns (fun j => { j with state := .running }) (state_keeps .running)
  | extendDeadline jobID token deadline => unobserved jobID (owned jobID token) fun _ =>
    setColumns (fun j => { j with deadline := some deadline }) (deadline_keeps deadline)
  | completeJob jobID _ token now => unobserved jobID (owned jobID token) fun _ =>
    setColumns (succeedRow now) (succeedRow_keeps now)
  | failJob jobID _ token errMsg nextRunAt _ => unobserved jobID (owned jobID token) fun j =>
    setColumns (failRow j.attempt j.maxRetries errMsg nextRunAt) (failRow_keeps j errMsg nextRunAt)
  | requeueStaleJob jobID _ dbNow => unobserved jobID (stale jobID dbNow) fun _ =>
    setColumns requeueRow requeueRow_keeps
  | promoteScheduledToPending jobID =>
    unobserved jobID (fun j => j.id == jobID && j.state == .scheduled) fun _ =>
      setColumns (fun j => { j with state := .pending }) (state_keeps .pending)
  | promoteFailedToPending jobID dbNow =>
    unobserved jobID (fun j => j.id == jobID && j.state == .failed) fun _ =>
      setColumns (fun j => { j with state := .pending, runAt := dbNow }) (pending_keeps dbNow)
  | cancelJob jobID tenantID =>
    { unobserved jobID (cancellable jobID tenantID) fun _ => .delete with
      agrees := fun won reply => reply = if won then .nil else .notFound }
  | replayJob jobID tenantID => unobserved jobID (replayable jobID tenantID) fun _ =>
    setColumns replayRow replayRow_keeps
  | cmdForceFail jobID => unobserved jobID (forceFailable jobID) fun _ =>
    setColumns forceFailRow forceFailRow_keeps

/-- The step is about the job that the call names. -/
@[simp] theorem row_target (c : JobCall) : c.row.target = c.jobID := by
  -- Every call names its job in its first argument.
  cases c <;> rfl

/-- Every condition names the job. -/
theorem row_pins (c : JobCall) {j : Job} (hit : c.row.holds j = true) : j.id = c.jobID := by
  -- The comparison of the identifiers is the first conjunct, with one or two more behind it.
  cases c <;>
    simp only [row, unobserved, claimable, startable, owned, stale, cancellable, replayable,
      forceFailable, Bool.and_eq_true, beq_iff_eq] at hit
  case tryClaim | promoteScheduledToPending | promoteFailedToPending | requeueStaleJob
    | cmdForceFail => exact hit.1
  case markRunning | extendDeadline | completeJob | failJob | cancelJob | replayJob =>
    exact hit.1.1

/-- A single statement that commits by itself locks, writes, and ends. -/
theorem exec_locks {call : RowCall Job.id Job.idempotency JobRun Reply}
    {change : Change Job.id Job.idempotency} {missing : Reply} (waits : call.skips = false)
    (changes : ∀ j, call.change j = change) (silent : ∀ j, call.entries j = [])
    (lost : call.agrees false missing) (won : call.agrees true .nil) :
    (Statements.exec call.holds change missing).Locks JobRun.identity call := by
  -- Lock and change are one statement, and the commit follows at once.
  refine .asks (.write waits (.finish lost) fun j _ => ⟨changes j, ?_⟩)
  rw [Program.Settles, silent j]
  exact .commit (.finish won)

/-- The statements of every call lock its row, write it, and commit, in this order. -/
theorem statements_locks (c : JobCall) : c.statements.Locks JobRun.identity c.row := by
  cases c with
  | tryClaim jobID workerID token deadline runID now =>
    -- The update asks for the job alone, which the locked row is.
    refine .asks (.lock (.finish rfl) fun j hit => ?_)
    simp only [row, claimable, Bool.and_eq_true] at hit
    exact .write hit.1 (.insertLog rfl (.commit (.finish rfl)))
  | failJob jobID runID token errMsg nextRunAt now =>
    -- The change depends on the attempt that the locking read has returned.
    refine .asks (.lock (.finish trivial) fun j hit => ?_)
    simp only [row, unobserved, owned, Bool.and_eq_true] at hit
    refine .write hit.1.1 (.updateLog ?_ (.commit (.finish trivial)))
    intro old new closed
    exact JobRun.identity_finish closed
  | requeueStaleJob jobID now dbNow =>
    -- The runs are closed before the row is asked for.
    refine .updateLog (fun old new closed => JobRun.identity_finish closed) (.asks ?_)
    exact .write rfl (.commit (.finish trivial)) fun j _ => ⟨rfl, .commit (.finish trivial)⟩
  | completeJob jobID runID token now =>
    -- The run is closed after the transaction on the row is over.
    refine .asks (.write rfl (.finish trivial) fun j _ => ⟨rfl, .commit (.updateLog ?_ ?_)⟩)
    · intro old new closed
      exact JobRun.identity_finish closed
    · exact .commit (.finish trivial)
  | replayJob jobID tenantID =>
    refine .asks (.write rfl (.finish trivial) fun j _ => ⟨rfl, .commit (.read fun _ => ?_)⟩)
    exact .finish trivial
  | cancelJob jobID tenantID => exact exec_locks rfl (fun _ => rfl) (fun _ => rfl) rfl rfl
  | markRunning | extendDeadline | promoteScheduledToPending | promoteFailedToPending
  | cmdForceFail => exact exec_locks rfl (fun _ => rfl) (fun _ => rfl) trivial trivial

/-- A claim skips a locked row only if the holder leaves nothing to claim. -/
theorem skip_settles {c holder : JobCall} {j j' : Job} (skips : c.row.skips = true)
    (hit : c.row.holds j = true) (hit' : holder.row.holds j = true)
    (left : (holder.row.change j).row j = some j') : c.row.holds j' = false := by
  cases c with
  | tryClaim jobID workerID token deadline runID now =>
    -- The row is pending, so only a claim, a cancellation, or a force-fail can hold its lock.
    simp only [row, claimable, Bool.and_eq_true, beq_iff_eq] at hit
    cases holder with
    | tryClaim | cmdForceFail =>
      cases left
      simp [row, claimable, claimRow, forceFailRow]
    | cancelJob => cases left
    | markRunning => simp [row, unobserved, startable, hit.2] at hit'
    | extendDeadline | completeJob | failJob =>
      simp [row, unobserved, owned, hit.2, State.inFlight] at hit'
    | requeueStaleJob =>
      simp [row, unobserved, stale, Job.expired, hit.2, State.inFlight] at hit'
    | promoteScheduledToPending | promoteFailedToPending => simp [row, unobserved, hit.2] at hit'
    | replayJob => simp [row, unobserved, replayable, hit.2] at hit'
  | _ => cases skips

/-- The calls as a family that the rules for row locks apply to. -/
def workload {n : Nat} (calls : Fin n → JobCall) :
    Workload Job.id Job.idempotency JobRun Reply (UUID × UUID × Int) (Fin n) where
  call i := (calls i).row
  ident := JobRun.identity
  owner identity := identity.2.1
  owned := by
    -- A claim opens a run of the job it has claimed, and nothing else opens runs.
    intro i j named entry listed
    generalize calls i = c at named listed
    cases c with
    | tryClaim =>
      rw [List.mem_singleton.mp listed]
      exact named
    | _ => cases listed
  settles _ _ _ _ skips _ hit hit' left := skip_settles skips hit hit' left

/-- An update that names a job changes the row of that job, or nothing. -/
theorem update_eq {jobs : Jobs} {jobID : UUID} {holds : Job → Bool} {set : Job → Job}
    {keeps : ∀ j, (set j).id = j.id ∧ (set j).idempotency = j.idempotency}
    (pins : ∀ j, holds j = true → j.id = jobID) :
    jobs.update holds set keeps = ((jobs.find? jobID).filter holds).elim jobs fun _ =>
      (setColumns set keeps).apply jobID jobs := by
  -- The condition is asked of the one row that can meet it.
  cases located : (jobs.find? jobID).filter holds with
  | none =>
    refine Table.update_eq_self (Table.missed_of_key pins fun j found => ?_)
    simpa [found] using located
  | some j =>
    obtain ⟨found, hit⟩ := Option.filter_eq_some_iff.mp located
    exact Table.update_of_key pins found hit

/-- A deletion that names a job deletes the row of that job, or nothing. -/
theorem delete_eq {jobs : Jobs} {jobID : UUID} {holds : Job → Bool}
    (pins : ∀ j, holds j = true → j.id = jobID) :
    jobs.delete holds = ((jobs.find? jobID).filter holds).elim jobs fun _ =>
      Change.delete.apply jobID jobs := by
  -- The condition is asked of the one row that can meet it.
  cases located : (jobs.find? jobID).filter holds with
  | none =>
    refine Table.delete_eq_self (Table.missed_of_key pins fun j found => ?_)
    simpa [found] using located
  | some j =>
    obtain ⟨found, hit⟩ := Option.filter_eq_some_iff.mp located
    exact Table.delete_of_key pins found hit

/-- The second statement of a completion does not reach the jobs. -/
theorem completeJob_jobs (jobID runID token : UUID) (now : Time) (db : Db) :
    (Sluice.completeJob jobID runID token now db).2.jobs =
      db.jobs.update (owned jobID token) (succeedRow now) fun _ => ⟨rfl, rfl⟩ := by
  -- Without an affected row there is no second statement at all.
  unfold Sluice.completeJob
  simp only
  split
  · rfl
  · rw [completeRun_jobs]
    rfl

/-- As an indivisible step a call changes the row that meets its condition, or nothing. -/
theorem onJobs_eq (c : JobCall) (jobs : Jobs) :
    c.onJobs jobs = ((jobs.find? c.jobID).filter c.row.holds).elim jobs fun j =>
      (c.row.change j).apply c.jobID jobs := by
  -- Each call is first brought to the one statement that writes the jobs table.
  have pins : ∀ j, c.row.holds j = true → j.id = c.jobID := fun j => c.row_pins
  cases c with
  | markRunning | extendDeadline | promoteScheduledToPending | promoteFailedToPending =>
    exact update_eq pins
  | tryClaim jobID workerID token deadline runID now =>
    have read : jobs.select? (claimable jobID) = (jobs.find? jobID).filter (claimable jobID) :=
      Table.select?_of_key pins
    simp only [onJobs, op, Op.apply, Sluice.tryClaim, read, row, JobCall.jobID]
    cases (jobs.find? jobID).filter (claimable jobID) <;> rfl
  | failJob jobID runID token errMsg nextRunAt now =>
    have read : jobs.select? (owned jobID token) = (jobs.find? jobID).filter (owned jobID token) :=
      Table.select?_of_key pins
    simp only [onJobs, op, Op.apply, Sluice.failJob, read, row, unobserved, JobCall.jobID]
    cases (jobs.find? jobID).filter (owned jobID token) <;> rfl
  | requeueStaleJob jobID now dbNow =>
    -- Without runs the first statement has nothing to do.
    have written : (JobCall.requeueStaleJob jobID now dbNow).onJobs jobs =
        jobs.update (stale jobID dbNow) requeueRow fun _ => ⟨rfl, rfl⟩ := by
      simp only [onJobs, op, Op.apply, Sluice.requeueStaleJob, Db.empty, updateRows?]
      split
      · rename_i missed
        exact (Table.update_eq_self fun j stored => by
          simpa using List.find?_eq_none.mp missed j stored).symm
      · rfl
    exact written.trans (update_eq pins)
  | completeJob jobID runID token now =>
    exact (completeJob_jobs jobID runID token now _).trans (update_eq pins)
  | cancelJob jobID tenantID =>
    have written : (JobCall.cancelJob jobID tenantID).onJobs jobs =
        jobs.delete (cancellable jobID tenantID) := by
      simp only [onJobs, op, Op.apply, Sluice.cancelJob]
      split
      · rename_i none
        exact (Table.delete_eq_self (Table.missed_of_affected (beq_iff_eq.mp none))).symm
      · rfl
    exact written.trans (delete_eq pins)
  | replayJob jobID tenantID =>
    -- The job is read back after its reset, whatever comes of that.
    have written : (JobCall.replayJob jobID tenantID).onJobs jobs =
        jobs.update (replayable jobID tenantID) replayRow fun _ => ⟨rfl, rfl⟩ := by
      simp only [onJobs, op, Op.apply, Sluice.replayJob]
      split
      · rename_i none
        exact (Table.update_eq_self (Table.missed_of_affected (beq_iff_eq.mp none))).symm
      · split <;> rfl
    exact written.trans (update_eq pins)
  | cmdForceFail jobID =>
    have written : (JobCall.cmdForceFail jobID).onJobs jobs =
        jobs.update (forceFailable jobID) forceFailRow fun _ => ⟨rfl, rfl⟩ := by
      simp only [onJobs, op, Op.apply, Sluice.cmdForceFail]
      split
      · rename_i none
        exact (Table.update_eq_self (Table.missed_of_affected (beq_iff_eq.mp none))).symm
      · rfl
    exact written.trans (update_eq pins)

/--
The runs only decide whether a call fails as a whole.

On any database a call that is not rolled back does to the jobs what it does to them without runs.
-/
theorem apply_jobs (c : JobCall) (db : Db) :
    (c.op.apply db).jobs = c.onJobs db.jobs ∨ c.op.apply db = db := by
  cases c with
  | markRunning | extendDeadline | promoteScheduledToPending | promoteFailedToPending =>
    exact .inl rfl
  | tryClaim =>
    left
    simp only [onJobs, op, Op.apply, Sluice.tryClaim]
    split <;> rfl
  | completeJob =>
    left
    simp only [onJobs, op, Op.apply, completeJob_jobs]
  | failJob =>
    simp only [onJobs, op, Op.apply, Sluice.failJob]
    cases db.jobs.select? _ with
    | none => exact .inl rfl
    | some row =>
      simp only
      split
      · exact .inr rfl
      · exact .inl rfl
  | requeueStaleJob =>
    simp only [onJobs, op, Op.apply, Sluice.requeueStaleJob, Db.empty, updateRows?]
    split
    · exact .inr rfl
    · left
      cases db.jobs.select? _ <;> rfl
  | cancelJob =>
    left
    simp only [onJobs, op, Op.apply, Sluice.cancelJob]
    split <;> rfl
  | replayJob =>
    left
    simp only [onJobs, op, Op.apply, Sluice.replayJob]
    split
    · rfl
    · split <;> rfl
  | cmdForceFail =>
    left
    simp only [onJobs, op, Op.apply, Sluice.cmdForceFail]
    split <;> rfl

/-- What is observed of a call that has acted, or has not. -/
def verdict (won : Bool) : JobCall → Option Reply
  | tryClaim _ _ _ _ runID _ => some (if won then .claimed runID else .unclaimed)
  | cancelJob .. => some (if won then .nil else .notFound)
  | _ => none

/-- As an indivisible step a call answers by whether the row meets its condition. -/
theorem answer_eq (c : JobCall) (jobs : Jobs) :
    c.answer jobs = c.verdict ((jobs.find? c.jobID).any c.row.holds) := by
  -- A claim asks whether its read has a row, and a cancellation whether it has affected one.
  have pins : ∀ j, c.row.holds j = true → j.id = c.jobID := fun j => c.row_pins
  rw [← Option.isSome_filter]
  cases c with
  | tryClaim jobID workerID token deadline runID now =>
    have read : jobs.select? (claimable jobID) = (jobs.find? jobID).filter (claimable jobID) :=
      Table.select?_of_key pins
    simp only [row, JobCall.jobID]
    obtain missed | ⟨j, located⟩ :=
      Option.eq_none_or_eq_some ((jobs.find? jobID).filter (claimable jobID))
    · simp only [answer, Sluice.tryClaim, read, missed]
      rfl
    · simp only [answer, Sluice.tryClaim, read, located]
      rfl
  | cancelJob jobID tenantID =>
    have counted : jobs.affected (cancellable jobID tenantID) =
        if ((jobs.find? jobID).filter (cancellable jobID tenantID)).isSome then 1 else 0 :=
      Table.affected_of_key pins
    simp only [row, unobserved, JobCall.jobID]
    obtain missed | ⟨j, located⟩ :=
      Option.eq_none_or_eq_some ((jobs.find? jobID).filter (cancellable jobID tenantID))
    · simp only [answer, Sluice.cancelJob, counted, missed]
      rfl
    · simp only [answer, Sluice.cancelJob, counted, located]
      rfl
  | _ => rfl

/-- The answers that stand for having acted or not are those that are observed. -/
theorem observed_eq (c : JobCall) {won : Bool} {reply : Reply} (agrees : c.row.agrees won reply) :
    c.observed (some reply) = c.verdict won := by
  -- Only the two observed calls say more than that some answer was given.
  cases c with
  | tryClaim | cancelJob => exact congrArg some agrees
  | _ => rfl

variable {n : Nat} {calls : Fin n → JobCall}

/-- An attempt under the rules for row locks is the call as an indivisible step. -/
theorem attempt_eq (calls : Fin n → JobCall) (i : Fin n) (jobs : Jobs)
    (log : List (UUID × UUID × Int)) :
    ((workload calls).protocol.attempt i (jobs, log)).1.1 = (calls i).onJobs jobs ∧
      ((workload calls).protocol.attempt i (jobs, log)).2 =
        (jobs.find? (calls i).jobID).any (calls i).row.holds := by
  have ready : (workload calls).protocol.ready i (jobs, log) =
      (jobs.find? (calls i).jobID).any (calls i).row.holds := by
    rw [← row_target]
    rfl
  -- Both act on the row that meets the condition, if there is one.
  rw [onJobs_eq, Protocol.attempt, ready, ← Option.isSome_filter]
  cases located : (jobs.find? (calls i).jobID).filter (calls i).row.holds with
  | none => exact ⟨rfl, rfl⟩
  | some j =>
    obtain ⟨found, -⟩ := Option.filter_eq_some_iff.mp located
    rw [← row_target] at found
    have acts := (workload calls).act_of_find? (i := i) (s := (jobs, log)) found
    refine ⟨?_, rfl⟩
    simp only [Option.isSome_some, if_true, Option.elim, ← row_target]
    exact congrArg Prod.fst acts

/-- A serial order under the rules for row locks is one of the calls as indivisible steps. -/
theorem serial_eq {order : List (Fin n)} {jobs jobs' : Jobs}
    {log log' : List (UUID × UUID × Int)} {won : Fin n → Bool}
    (replay : (workload calls).protocol.serial (jobs, log) order = ((jobs', log'), order.map won)) :
    serial jobs (order.map calls) = (jobs', order.map fun i => (calls i).verdict (won i)) := by
  -- Both sides take the calls from the front, and the first step is the same.
  induction order generalizing jobs log with
  | nil =>
    cases replay
    rfl
  | cons i order ih =>
    simp only [Protocol.serial, List.map_cons, Prod.mk.injEq, List.cons.injEq] at replay
    obtain ⟨final, result, results⟩ := replay
    obtain ⟨jobs_eq, won_eq⟩ := attempt_eq calls i jobs log
    have rest := ih (Prod.ext final results)
    rw [jobs_eq] at rest
    rw [won_eq] at result
    simp only [List.map_cons, serial, rest, answer_eq, result]

/-- A claim that acts leaves the claimed row and one more run of the job. -/
theorem view_claim {i : Fin n} {k token runID : UUID} {workerID : String} {deadline now : Time}
    (claim : calls i = tryClaim k workerID token deadline runID now)
    {s : Jobs × List (UUID × UUID × Int)} {job : Job} (found : s.1.find? k = some job) :
    (workload calls).protocol.view ((workload calls).protocol.effect i s) k =
      (some (claimRow workerID token deadline now job),
        s.2.filter (fun run => run.2.1 == k) ++ [(openRun runID now job).identity]) := by
  -- The run copies columns that the claim has not written.
  have call : (workload calls).call i = (tryClaim k workerID token deadline runID now).row := by
    rw [← claim]
    rfl
  have target : ((workload calls).call i).target = k := by
    rw [call]
    rfl
  have shown := (workload calls).view_act (i := i) (s := s) (target ▸ found)
  rw [target, call] at shown
  exact shown

/-- Of the claims of a pending job that nothing else touches, exactly one succeeds. -/
theorem contested {order : List (Fin n)} {jobs jobs' : Jobs}
    {log log' : List (UUID × UUID × Int)} {won : Fin n → Bool}
    (replay : (workload calls).protocol.serial (jobs, log) order = ((jobs', log'), order.map won))
    (all : ∀ i, i ∈ order) {k : UUID} {job : Job} (found : jobs.find? k = some job)
    (pending : job.state = .pending) (contended : ∃ i, (calls i).jobID = k)
    (claims : ∀ i, (calls i).jobID = k → ∃ workerID token deadline runID now,
      calls i = tryClaim k workerID token deadline runID now) :
    ∃ i workerID token deadline runID now,
      calls i = tryClaim k workerID token deadline runID now ∧ won i = true ∧
      (∀ j, j ≠ i → (calls j).jobID = k → won j = false) ∧
      jobs'.find? k = some (claimRow workerID token deadline now job) ∧
      log'.filter (fun run => run.2.1 == k) =
        log.filter (fun run => run.2.1 == k) ++ [(openRun runID now job).identity] := by
  have key : ∀ i, (workload calls).protocol.key i = (calls i).jobID := fun i => (calls i).row_target
  -- On this job every call asks for the same, and the claim of one spoils it for the others.
  have enabled : ∀ i, (calls i).jobID = k → ∀ view,
      (workload calls).protocol.enabled i view = view.1.any (claimable k) := by
    intro i here view
    obtain ⟨workerID, token, deadline, runID, now, claim⟩ := claims i here
    have holds : (calls i).row.holds = claimable k := by
      rw [claim]
      rfl
    rw [← holds]
    rfl
  have shown : (workload calls).protocol.view (jobs, log) k =
      (some job, log.filter fun run => run.2.1 == k) := Prod.ext found rfl
  have ready : ∀ i ∈ order, (workload calls).protocol.key i = k → (workload calls).protocol.enabled
      i ((workload calls).protocol.view (jobs, log) k) = true := by
    intro i _ here
    rw [enabled i ((key i).symm.trans here), shown]
    simp [claimable, Table.key_of_find? found, pending]
  have disables : ∀ i ∈ order, ∀ winner ∈ order, (workload calls).protocol.key i = k →
      (workload calls).protocol.key winner = k → ∀ t,
      (workload calls).protocol.view t k = (workload calls).protocol.view (jobs, log) k →
      (workload calls).protocol.enabled i ((workload calls).protocol.view
        ((workload calls).protocol.effect winner t) k) = false := by
    intro i _ winner _ here there t same
    obtain ⟨workerID, token, deadline, runID, now, claim⟩ :=
      claims winner ((key winner).symm.trans there)
    rw [shown] at same
    rw [enabled i ((key i).symm.trans here), view_claim claim (congrArg Prod.fst same)]
    simp [claimable, claimRow]
  -- So the first claim in the order is the one that acts.
  obtain ⟨i₀, here₀⟩ := contended
  obtain ⟨i, -, here, wins, losers, t, before, after⟩ := Protocol.serial_contested _ replay
    ⟨i₀, all i₀, (key i₀).trans here₀⟩ ready disables
  obtain ⟨workerID, token, deadline, runID, now, claim⟩ := claims i ((key i).symm.trans here)
  rw [shown] at before
  rw [view_claim claim (congrArg Prod.fst before)] at after
  have same : (t.2.filter fun run => run.2.1 == k) = log.filter fun run => run.2.1 == k :=
    congrArg Prod.snd before
  refine ⟨i, workerID, token, deadline, runID, now, claim, wins, ?_, congrArg Prod.fst after, ?_⟩
  · intro j ne there
    exact losers j (all j) ((key j).trans there) ne
  · rw [← same]
    exact congrArg Prod.snd after

end JobCall

/-- The calls under way as the rules for row locks see them. -/
theorem JobCall.launch_eq {n : Nat} (calls : Fin n → JobCall) (jobs : Jobs)
    (jobRuns : List JobRun) :
    launch calls jobs jobRuns = .start jobs jobRuns (fun i => ((workload calls).call i).target)
      fun i => (calls i).statements := by
  -- Calls and their row steps are about the same jobs.
  have targets : (fun i => ((workload calls).call i).target) = fun i => (calls i).jobID :=
    funext fun i => (calls i).row_target
  rw [targets]
  rfl

/--
Concurrent calls on jobs, interleaved statement by statement, are linearizable.

When all have answered, there is an order of the calls in which they lead to the same jobs and the
same answers as indivisible steps. Of the claims of a pending job that nothing else touches, exactly
one succeeds, the row is as that claim left it, and the only new run of the job is its own.
-/
theorem jobs_linearizable {n : Nat} {calls : Fin n → JobCall} {jobs : Jobs}
    {jobRuns : List JobRun} {m : Machine Job.id Job.idempotency JobRun Reply (Fin n)}
    {past : List (Step (Machine Job.id Job.idempotency JobRun Reply (Fin n)) (Fin n))}
    (run : Run Machine.Next (JobCall.launch calls jobs jobRuns) past m)
    (complete : ∀ i, (m.reply? i).isSome = true) :
    (∃ order : List (Fin n), order.Perm (List.finRange n) ∧
      JobCall.serial jobs (order.map calls) =
        (m.table, order.map fun i => (calls i).observed (m.reply? i))) ∧
    ∀ k row, jobs.find? k = some row → row.state = .pending → (∃ i, (calls i).jobID = k) →
      (∀ i, (calls i).jobID = k → ∃ workerID token deadline runID now,
        calls i = .tryClaim k workerID token deadline runID now) →
      ∃ i workerID token deadline runID now,
        calls i = .tryClaim k workerID token deadline runID now ∧
        m.reply? i = some (.claimed runID) ∧
        (∀ j, j ≠ i → (calls j).jobID = k → m.reply? j = some .unclaimed) ∧
        m.table.find? k = some (claimRow workerID token deadline now row) ∧
        (m.log.filter fun r => r.jobID == k).map JobRun.identity =
          (jobRuns.filter fun r => r.jobID == k).map JobRun.identity ++
            [(openRun runID now row).identity] := by
  rw [JobCall.launch_eq] at run
  obtain ⟨order, won, arranged, replay, agrees⟩ := (JobCall.workload calls).serializable
    (fun i => (calls i).statements_locks) run complete (List.nodup_finRange n) List.mem_finRange
  -- Every call has answered, and its answer says whether it has acted.
  have observed : ∀ i, (calls i).observed (m.reply? i) = (calls i).verdict (won i) := by
    intro i
    obtain ⟨reply, given⟩ := Option.isSome_iff_exists.mp (complete i)
    rw [given]
    exact (calls i).observed_eq (agrees i reply given)
  refine ⟨⟨order, arranged, ?_⟩, fun k row found pending some_call claims => ?_⟩
  · rw [JobCall.serial_eq replay]
    simp only [observed]
  · obtain ⟨i, workerID, token, deadline, runID, now, claim, wins, losers, claimed, opened⟩ :=
      JobCall.contested replay (fun i => arranged.mem_iff.mpr (List.mem_finRange i)) found pending
        some_call claims
    -- The jobs that runs belong to can be read off the runs or off what identifies them.
    have owned : ∀ runs : List JobRun, (runs.map JobRun.identity).filter (fun r => r.2.1 == k) =
        (runs.filter fun r => r.jobID == k).map JobRun.identity := fun runs => List.filter_map
    refine ⟨i, workerID, token, deadline, runID, now, claim, ?_, ?_, claimed, ?_⟩
    · have answer := observed i
      rwa [claim, wins] at answer
    · intro j ne here
      obtain ⟨_, _, _, _, _, other⟩ := claims j here
      have answer := observed j
      rwa [other, losers j ne here] at answer
    · rw [← owned, ← owned]
      exact opened

/-- A job that is pending at once. -/
def racedJob (id : UUID) : Job := submittedJob 7 (.bare "mail" (.object .nil)) id 0

/-- Two pending jobs of one tenant. -/
def racedJobs : Jobs := (afterCalls [.insertJob (racedJob 1), .insertJob (racedJob 2)]).jobs

/-- Two workers claim the first job, and the second is claimed while its tenant cancels it. -/
def racingCalls : Fin 4 → JobCall
  | 0 => .tryClaim 1 "a" 21 30 11 5
  | 1 => .tryClaim 1 "b" 22 31 12 6
  | 2 => .tryClaim 2 "b" 23 32 13 6
  | 3 => .cancelJob 2 7

/-- One claim skips the lock of the other, and the cancellation waits until a claim commits. -/
def racedSchedule : List (Fin 4) := [0, 1, 0, 1, 3, 2, 2, 0, 2, 2, 0, 0, 2, 3]

/-- The tables and the calls after the race. -/
def racedMachine : Machine Job.id Job.idempotency JobRun Reply (Fin 4) :=
  racedSchedule.foldl Machine.move (JobCall.launch racingCalls racedJobs [])

theorem jobs_linearizable_raced :
    racedMachine.reply? 1 = some .unclaimed ∧ racedMachine.reply? 3 = some .notFound ∧
    (∃ order : List (Fin 4), order.Perm (List.finRange 4) ∧
      JobCall.serial racedJobs (order.map racingCalls) =
        (racedMachine.table,
          order.map fun i => (racingCalls i).observed (racedMachine.reply? i))) ∧
    ∃ i workerID token deadline runID now,
      racingCalls i = .tryClaim 1 workerID token deadline runID now ∧
      racedMachine.reply? i = some (.claimed runID) ∧
      racedMachine.table.find? 1 =
        some (claimRow workerID token deadline now (racedJob 1).inserted) := by
  have run := Machine.run_of_schedule (JobCall.launch racingCalls racedJobs []) racedSchedule
    (by decide +kernel)
  obtain ⟨ordered, contested⟩ := jobs_linearizable run (by decide +kernel)
  -- Only the first two calls name the first job.
  have claims : ∀ i, (racingCalls i).jobID = 1 → ∃ workerID token deadline runID now,
      racingCalls i = .tryClaim 1 workerID token deadline runID now
    | 0, _ | 1, _ => ⟨_, _, _, _, _, rfl⟩
    | 2, here | 3, here => absurd here (by decide)
  obtain ⟨i, workerID, token, deadline, runID, now, claim, wins, -, claimed, -⟩ :=
    contested 1 (racedJob 1).inserted (by decide +kernel) (by decide +kernel) ⟨0, rfl⟩ claims
  exact ⟨by decide +kernel, by decide +kernel, ordered, i, workerID, token, deadline, runID, now,
    claim, wins, claimed⟩

end Sluice
