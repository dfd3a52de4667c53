import Sluice.Proofs.Interrupted
import Sluice.Worker.Process

/-! What becomes of the job in the hands of a worker that is told to stop. -/

namespace Sluice

open Relational

variable {jobID token runID : UUID} {now : Time} {attempt : Int} {db : Db} {j : Job}

/-- A worker holds the job, whose attempt has not been counted yet, and its run can be closed. -/
structure InHand (jobID token runID : UUID) (now : Time) (attempt : Int) (db : Db) (j : Job) :
    Prop where
  stored : db.jobs.find? jobID = some j
  mine : owned jobID token j = true
  current : j.attempt = attempt
  closable : ∀ run ∈ db.jobRuns, run.id = runID → (elapsedMs run.startedAt now).isSome = true

namespace InHand

/-- A job in hand has no outcome yet. -/
theorem inFlight (held : InHand jobID token runID now attempt db j) : j.state.inFlight = true :=
  (Bool.and_eq_true_iff.mp held.mine).2

/-- Marking the job as running leaves it in hand. -/
theorem markRunning (held : InHand jobID token runID now attempt db j) :
    ∃ j', InHand jobID token runID now attempt (markRunning jobID token db) j' := by
  -- The statement may miss the row, and it writes nothing but a state that is in flight.
  refine ⟨if startable jobID token j then { j with state := .running } else j, ?_, ?_, ?_,
    held.closable⟩
  · simp [Sluice.markRunning, held.stored]
  · have mine := held.mine
    split
    · simp_all [owned, State.inFlight]
    · exact mine
  · split
    · exact held.current
    · exact held.current

/-- A heartbeat leaves the job in hand. -/
theorem extendDeadline (held : InHand jobID token runID now attempt db j) (deadline : Time) :
    InHand jobID token runID now attempt (extendDeadline jobID token deadline db)
      { j with deadline := some deadline } where
  stored := by simp [Sluice.extendDeadline, held.stored, held.mine]
  mine := held.mine
  current := held.current
  closable := held.closable

/-- All heartbeats together leave the job in hand. -/
theorem heartbeat (held : InHand jobID token runID now attempt db j) (beats : List Time) :
    ∃ j', InHand jobID token runID now attempt (heartbeat jobID token beats db) j' := by
  -- Each heartbeat starts from the row that the one before has left.
  induction beats generalizing db j with
  | nil => exact ⟨j, held⟩
  | cons now beats ih => exact ih (held.extendDeadline (now + heartbeatTTL))

end InHand

/-- The row of a job that has been carried out says how the execution has ended. -/
def Job.Records (outcome : Except String Unit) (attempt : Int) (j : Job) : Prop :=
  match outcome with
  | .ok () => j.state = .succeeded
  | .error _ => (j.state = .failed ∨ j.state = .dead) ∧ j.attempt = attempt + 1

/--
Whether the outcome is recorded when the signal arrives.

`CompleteJob` has written the job's row with its first statement, and `FailJob` with its commit.
-/
def Moment.recorded (outcome : Except String Unit) : Moment → Bool
  | record n => decide ((if outcome.isOk then 2 else 4) ≤ n)
  | removeFromProcessing => true
  | _ => false

/-- What the recording of an outcome makes of the job's row. -/
def Job.ended (outcome : Except String Unit) (nextRunAt : Option Time) (now : Time) (j : Job) :
    Job :=
  match outcome with
  | .ok () => succeedRow now j
  | .error execErr => failRow j.attempt j.maxRetries execErr nextRunAt j

/-- A job that has ended records its outcome. -/
theorem Job.ended_records (outcome : Except String Unit) (nextRunAt : Option Time) (now : Time)
    (j : Job) : (j.ended outcome nextRunAt now).Records outcome j.attempt := by
  cases outcome with
  | ok => rfl
  | error execErr =>
    -- Whether a retry is left only decides between the two states.
    refine ⟨?_, rfl⟩
    simp only [Job.ended, failRow, failState]
    split
    · exact .inr rfl
    · exact .inl rfl

/-- A job in hand records no outcome. -/
theorem InHand.not_records (held : InHand jobID token runID now attempt db j)
    (outcome : Except String Unit) : ¬ j.Records outcome attempt := by
  -- All outcomes are recorded as states out of flight.
  have live := held.inFlight
  cases outcome with
  | ok =>
    intro succeeded
    simp [show j.state = .succeeded from succeeded, State.inFlight] at live
  | error =>
    rintro ⟨failed | dead, -⟩
    · simp [failed, State.inFlight] at live
    · simp [dead, State.inFlight] at live

namespace InHand

variable {execErr : String} {nextRunAt : Option Time}

/-- The statement of a failure on the runs does not fail. -/
theorem closes (held : InHand jobID token runID now attempt db j) (state : State)
    (execErr : String) :
    ∃ jobRuns, updateRows? (fun run => run.id == runID) (JobRun.finish state now (some execErr))
      db.jobRuns = some jobRuns := by
  -- Only a duration that overflows could make it fail.
  refine Option.ne_none_iff_exists'.mp fun failed => ?_
  obtain ⟨run, listed, hit, overflow⟩ := updateRows?_eq_none_iff.mp failed
  have fits := held.closable run listed (beq_iff_eq.mp hit)
  simp only [JobRun.finish, Option.map_eq_none_iff] at overflow
  simp [overflow] at fits

/-- The lock of a statement of the owner finds the job. -/
theorem locks (held : InHand jobID token runID now attempt db j) :
    (db.jobs.find? jobID).filter (owned jobID token) = some j := by
  rw [held.stored]
  exact Option.filter_eq_some_iff.mpr ⟨rfl, held.mine⟩

/-- `CompleteJob` on a job in hand. -/
theorem completeJob (held : InHand jobID token runID now attempt db j) :
    (completeJob jobID runID token now db).2.jobs.find? jobID = some (succeedRow now j) := by
  rcases completeJob_spec jobID runID token now db with ⟨-, -, -, done⟩ | ⟨stale, -⟩
  · -- The second statement does not touch the jobs, even if it fails.
    rw [done, completeRun_jobs]
    simp [completeRow, held.stored, held.mine]
  · exact absurd held.mine (by simp [stale j held.stored])

/-- `FailJob` on a job in hand. -/
theorem failJob (held : InHand jobID token runID now attempt db j) :
    (failJob jobID runID token execErr nextRunAt now db).2.jobs.find? jobID =
      some (failRow j.attempt j.maxRetries execErr nextRunAt j) := by
  -- The lock finds the job, and the statement on the runs lets the transaction commit.
  have pins : ∀ row : Job, owned jobID token row = true → row.id = jobID := by
    simp +contextual [owned]
  have read : db.jobs.select? (owned jobID token) = some j := by
    rw [Table.select?_of_key pins, held.locks]
  obtain ⟨jobRuns, closed⟩ := held.closes (failState (j.attempt + 1) j.maxRetries) execErr
  simp [Sluice.failJob, read, closed, held.stored, Table.key_of_find? held.stored]

/-- `CompleteJob` on a job in hand, stopped on its way. -/
theorem completeJob_interrupted (held : InHand jobID token runID now attempt db j) (n : Nat) :
    ((JobCall.completeJob jobID runID token now).interrupted n db.jobs db.jobRuns).table.find?
      jobID = some (if 2 ≤ n then succeedRow now j else j) := by
  by_cases late : 2 ≤ n
  · -- The first statement has committed by itself.
    obtain ⟨rest, rfl⟩ := Nat.exists_eq_add_of_le' late
    have committed : ((JobCall.completeJob jobID runID token now).interrupted (rest + 2) db.jobs
        db.jobRuns).table = db.jobs.update (fun j => j.id == jobID) (succeedRow now)
          fun _ => ⟨rfl, rfl⟩ :=
      Machine.advance_committed
        (m := JobCall.launch (fun _ : Fin 1 => .completeJob jobID runID token now) db.jobs
          db.jobRuns)
        (i := 0) rfl (fun _ => Subsingleton.elim _ _) (.updateLog (.commit (.finish _)))
        held.locks rest
    simp [committed, held.stored, Table.key_of_find? held.stored]
  · rw [(JobCall.completeJob_early (by omega)).1, if_neg late]
    exact held.stored

/-- `FailJob` on a job in hand, stopped on its way. -/
theorem failJob_interrupted (held : InHand jobID token runID now attempt db j) (n : Nat) :
    ((JobCall.failJob jobID runID token execErr nextRunAt now).interrupted n db.jobs
      db.jobRuns).table.find? jobID =
        some (if 4 ≤ n then failRow j.attempt j.maxRetries execErr nextRunAt j else j) := by
  have named : j.id = jobID := Table.key_of_find? held.stored
  have table := Machine.advance_transaction
    (m := JobCall.launch (fun _ : Fin 1 => .failJob jobID runID token execErr nextRunAt now)
      db.jobs db.jobRuns)
    (i := 0) rfl (fun _ => Subsingleton.elim _ _) held.locks (by simpa using named) rfl
    (fun run listed hit => by
      simpa [JobRun.finish] using held.closable run listed (beq_iff_eq.mp hit)) n
  rw [JobCall.interrupted, table]
  split
  · simp [Change.apply, JobCall.launch, Machine.start, JobCall.jobID, held.stored, named]
  · exact held.stored

end InHand

/--
Before the recording the signal prevents all of it, and after it the signal comes too late.

In between it depends on how many statements the call has made.
-/
theorem find?_record (call : JobCall) (outcome : Except String Unit) {ended : Job}
    (stored : db.jobs.find? jobID = some j)
    (done : (call.op.apply db).jobs.find? jobID = some ended)
    (stopped : ∀ n, (call.interrupted n db.jobs db.jobRuns).table.find? jobID =
      some (if (if outcome.isOk then 2 else 4) ≤ n then ended else j)) (ctx : Context) :
    (record ctx call db).jobs.find? jobID =
      some (if ctx.all (Moment.recorded outcome) then ended else j) := by
  cases ctx with
  | none => exact done
  | some signal =>
    cases signal with
    | record n => simpa [record, Moment.recorded] using stopped n
    | removeFromProcessing => exact done
    | tryClaim | getJob | markRunning | execute => exact stored

/-- The recording of an outcome has ended the job, or the signal has come in time to prevent it. -/
theorem InHand.record {d : ProcessDraw}
    (held : InHand jobID d.token d.runID d.recordedAt attempt db j) (ctx : Context) (row : Job)
    (outcome : Except String Unit) :
    ∃ nextRunAt, (record ctx (recording jobID row outcome d).1 db).jobs.find? jobID =
      some (if ctx.all (Moment.recorded outcome) then j.ended outcome nextRunAt d.recordedAt
        else j) := by
  cases outcome with
  | ok =>
    refine ⟨none, ?_⟩
    exact find?_record (.completeJob jobID d.runID d.token d.recordedAt) (.ok ()) held.stored
      held.completeJob held.completeJob_interrupted ctx
  | error execErr =>
    refine ⟨if row.shouldRetry then
      some (nextRetryAt (row.attempt + 1) row.backoffSeconds d.intn d.executedAt) else none, ?_⟩
    exact find?_record (.failJob jobID d.runID d.token execErr _ d.recordedAt) (.error execErr)
      held.stored held.failJob held.failJob_interrupted ctx

/-- A run that is closed within 2147483 seconds has a duration. -/
theorem elapsedMs_isSome {start finish : Time} (ordered : start ≤ finish)
    (soon : finish ≤ start + 2147483 * second) : (elapsedMs start finish).isSome = true := by
  have seconds : 0 ≤ epochSeconds (finish - start) ∧ epochSeconds (finish - start) ≤ 2147483 := by
    -- Rounding adds half a second at most.
    unfold epochSeconds second at *
    rw [if_pos (by lia)]
    constructor
    · lia
    · lia
  have fits : fitsInt (epochSeconds (finish - start)) = true ∧
      fitsInt (epochSeconds (finish - start) * 1000) = true := by
    simp only [fitsInt, decide_eq_true_eq]
    lia
  simp [elapsedMs, fits]

section Process

variable {ctx : Context} {workerID : String} {d : ProcessDraw} {s : Backends} {row : Job}

/-- A context stays cancelled. -/
theorem Context.canceled_mono {call call' : Moment} (canceled : ctx.canceled call = true)
    (after : call.place ≤ call'.place) : ctx.canceled call' = true := by
  cases ctx with
  | none => cases canceled
  | some signal =>
    simp only [Context.canceled, Option.any_some, decide_eq_true_eq] at canceled ⊢
    omega

/-- A claim succeeds only under a context that is not cancelled yet. -/
theorem Context.live_of_claimed (later : ctx ≠ some .tryClaim) :
    ctx.canceled .tryClaim = false := by
  cases ctx with
  | none => rfl
  | some signal =>
    cases signal with
    | tryClaim => exact absurd rfl later
    | _ => rfl

/-- A signal that comes before the execution is over prevents the recording. -/
theorem Context.not_recorded (canceled : ctx.canceled .execute = true)
    (outcome : Except String Unit) : ctx.all (Moment.recorded outcome) = false := by
  cases ctx with
  | none => cases canceled
  | some signal =>
    cases signal with
    | record | removeFromProcessing => cases canceled
    | _ => rfl

/-- The claim of a pending job puts it into the worker's hands. -/
theorem InHand.of_tryClaim {claimedAt : Time} (found : db.jobs.find? jobID = some row)
    (pending : row.state = .pending) (fresh : ∀ run ∈ db.jobRuns, run.id ≠ runID)
    (closable : (elapsedMs claimedAt now).isSome = true) (workerID : String) (token : UUID)
    (deadline : Time) :
    ∃ db', tryClaim jobID workerID token deadline runID claimedAt db = (some runID, db') ∧
      InHand jobID token runID now row.attempt db'
        (claimRow workerID token deadline claimedAt row) := by
  have named : row.id = jobID := Table.key_of_find? found
  rcases tryClaim_spec jobID workerID token deadline runID claimedAt db with
    ⟨row', found', -, done⟩ | ⟨refused, -⟩
  · cases found.symm.trans found'
    refine ⟨_, done, by simp [found, named], ?_, rfl, fun run listed same => ?_⟩
    · simp [owned, claimRow, named, State.inFlight]
    · -- The only run with this identifier is the one just opened.
      rcases List.mem_append.mp listed with old | new
      · exact absurd same (fresh run old)
      · cases List.mem_singleton.mp new
        exact closable
  · exact absurd pending (refused row found)

/-- What `process` makes of a job in hand. -/
theorem InHand.carryOut (held : InHand jobID d.token d.runID d.recordedAt attempt s.db row)
    (ctx : Context) (workerID : String) :
    ∃ db j nextRunAt, InHand jobID d.token d.runID d.recordedAt attempt db j ∧
      (s.carryOut ctx workerID jobID d row).db.jobs.find? jobID =
        some (if ctx.all (Moment.recorded (execute d.web (ctx.canceled .execute) row)) then
          j.ended (execute d.web (ctx.canceled .execute) row) nextRunAt d.recordedAt else j) := by
  -- Up to the recording the job stays in hand.
  have held' : ∃ db j, InHand jobID d.token d.runID d.recordedAt attempt db j ∧
      db = if ctx.canceled .markRunning then s.db
        else Sluice.heartbeat jobID d.token d.beats (Sluice.markRunning jobID d.token s.db) := by
    split
    · exact ⟨_, row, held, rfl⟩
    · obtain ⟨j, started⟩ := held.markRunning
      obtain ⟨j', beating⟩ := started.heartbeat d.beats
      exact ⟨_, j', beating, rfl⟩
  obtain ⟨db, j, held', same⟩ := held'
  obtain ⟨nextRunAt, recorded⟩ := held'.record ctx row (execute d.web (ctx.canceled .execute) row)
  refine ⟨db, j, nextRunAt, held', ?_⟩
  rw [← recorded, same]
  unfold Backends.carryOut Backends.removeFromProcessing
  dsimp only
  split <;> rfl

/--
A pending job that `process` can claim is ended with the outcome of its execution, unless a signal
comes before the recording is committed.
-/
theorem process_spec (workerID : String) (found : s.db.jobs.find? jobID = some row)
    (pending : row.state = .pending) (later : ctx ≠ some .tryClaim)
    (fresh : ∀ run ∈ s.db.jobRuns, run.id ≠ d.runID)
    (closable : (elapsedMs d.claimedAt d.recordedAt).isSome = true) :
    ∃ db j nextRunAt, InHand jobID d.token d.runID d.recordedAt row.attempt db j ∧
      (process ctx workerID jobID d s).db.jobs.find? jobID =
        some (if ctx.all (Moment.recorded (execute d.web false row)) then
          j.ended (execute d.web false row) nextRunAt d.recordedAt else j) := by
  obtain ⟨db, claimed, held⟩ := InHand.of_tryClaim found pending fresh closable workerID d.token
    (d.began + (visibilityTimeout + 30 * second))
  simp only [process, Context.live_of_claimed later, claimed, getJob, held.stored,
    Bool.false_eq_true, if_false]
  by_cases unread : ctx.canceled .getJob = true
  · -- The worker gives up before it has done anything to the job.
    have early : ctx.canceled .execute = true := Context.canceled_mono unread (by decide)
    refine ⟨db, _, none, held, ?_⟩
    rw [if_pos unread, Context.not_recorded early]
    exact held.stored
  · rw [if_neg unread]
    obtain ⟨db', j, nextRunAt, held', stored⟩ :=
      InHand.carryOut (s := { s with db }) held ctx workerID
    refine ⟨db', j, nextRunAt, held', stored.trans ?_⟩
    -- Only a signal that also prevents the recording changes how the execution ends.
    by_cases early : ctx.canceled .execute = true
    · rw [Context.not_recorded early, Context.not_recorded early]
      rfl
    · rw [Bool.eq_false_of_not_eq_true early]
      rfl

/--
A worker that has claimed a job records how the execution ends, exactly if no signal comes before
the recording is committed.
-/
theorem shutdown_drains_iff (ctx : Context) (workerID : String) (jobID : UUID) (d : ProcessDraw)
    (s : Backends) (row : Job) (found : s.db.jobs.find? jobID = some row)
    (pending : row.state = .pending) (later : ctx ≠ some .tryClaim)
    (fresh : ∀ run ∈ s.db.jobRuns, run.id ≠ d.runID) (ordered : d.claimedAt ≤ d.recordedAt)
    (soon : d.recordedAt ≤ d.claimedAt + 2147483 * second) :
    (∃ j, (process ctx workerID jobID d s).db.jobs.find? jobID = some j ∧
      j.Records (execute d.web false row) row.attempt) ↔
        ctx.all (Moment.recorded (execute d.web false row)) = true := by
  obtain ⟨db, j, nextRunAt, held, stored⟩ := process_spec workerID found pending later fresh
    (elapsedMs_isSome ordered soon)
  rw [stored]
  by_cases recorded : ctx.all (Moment.recorded (execute d.web false row)) = true
  · rw [if_pos recorded]
    refine iff_of_true ⟨_, rfl, ?_⟩ recorded
    rw [← held.current]
    exact Job.ended_records _ _ _ j
  · rw [if_neg recorded]
    refine iff_of_false ?_ recorded
    rintro ⟨j', same, records⟩
    cases same
    exact held.not_records _ records

end Process

/-- A job that waits for a worker, with nothing else stored. -/
def waitingJob : Job := (submittedJob 7 .hook 1 0).inserted

/-- The database with the waiting job, and Redis after a worker has fetched it. -/
def Backends.waiting : Backends where
  db := { Db.empty with jobs := (insertJob waitingJob .empty).2.jobs }
  redis := Redis.lpush (processingKey "w") waitingJob.id.toString fun _ => []
  metrics := []

/-- An execution of eight seconds, whose target answers with a status. -/
def eightSeconds (status : Nat) : ProcessDraw where
  token := 21
  runID := 11
  began := 0
  claimedAt := 0
  beats := [5 * second]
  dur := 8 * second
  executedAt := 8 * second
  recordedAt := 8 * second
  intn _ := 0
  web := .answering status

theorem shutdown_drains_late :
    ∃ j, (process (some .removeFromProcessing) "w" 1 (eightSeconds 200) .waiting).db.jobs.find? 1 =
      some j ∧ j.Records (execute (.answering 200) false waitingJob) 0 :=
  (shutdown_drains_iff (some .removeFromProcessing) "w" 1 (eightSeconds 200) .waiting waitingJob
    (by decide +kernel) rfl nofun (List.forall_mem_nil _) (by decide) (by decide)).mpr rfl

/-- A signal while the target is working on the request leaves the job running. -/
theorem shutdown_abandons :
    ¬ ∀ (ctx : Context) (workerID : String) (jobID : UUID) (d : ProcessDraw) (s : Backends)
      (row : Job), s.db.jobs.find? jobID = some row → row.state = .pending →
      ctx ≠ some .tryClaim → (∀ run ∈ s.db.jobRuns, run.id ≠ d.runID) →
      d.claimedAt ≤ d.recordedAt → d.recordedAt ≤ d.claimedAt + 2147483 * second →
      (∀ request, ∃ status, d.web.answer request = .ok status) → d.dur ≤ httpTimeout →
        ∃ j, (process ctx workerID jobID d s).db.jobs.find? jobID = some j ∧
          j.Records (execute d.web false row) row.attempt := by
  intro drains
  obtain ⟨j, stored, succeeded⟩ := drains (some .execute) "w" 1 (eightSeconds 200) .waiting
    waitingJob (by decide +kernel) rfl nofun (List.forall_mem_nil _) (by decide) (by decide)
    (fun _ => ⟨200, rfl⟩) (by decide)
  have running : ((process (some .execute) "w" 1 (eightSeconds 200) .waiting).db.jobs.find? 1).map
      Job.state = some .running := by
    decide +kernel
  rw [stored] at running
  cases running.symm.trans (congrArg some succeeded)

end Sluice
