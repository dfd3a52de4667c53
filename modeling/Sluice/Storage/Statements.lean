import Sluice.Relational.Event
import Sluice.Relational.Interrupt
import Sluice.Storage.Op

/-! The storage calls on jobs, down to the statements they send and the transactions around them. -/

namespace Sluice

open Relational

/-- What a call hands back to its caller, when no statement has failed. -/
inductive Reply where
  | nil
  | notFound
  -- `TryClaim`, with the identifier of the run it has opened.
  | claimed (runID : UUID)
  | unclaimed
  -- `RequeueStaleJob`, with whether the job is dead.
  | requeued (dead : Bool)
  | job (j : Job)
  -- The message with which `force-fail` exits.
  | notFoundOrTerminal
  -- The message with which `replay` exits.
  | notDead (state : State)
  deriving DecidableEq

/-- A call as a program of statements on the `jobs` table and the `job_runs` log. -/
abbrev Statements := Program Job.id Job.idempotency JobRun Reply

/-- A change of the columns that neither the key nor the unique index contains. -/
abbrev setColumns (set : Job → Job)
    (keeps : ∀ j, (set j).id = j.id ∧ (set j).idempotency = j.idempotency) :
    Change Job.id Job.idempotency :=
  .update ⟨set, keeps⟩

/-- Neither the key nor the unique index changes. -/
abbrev Keeps (set : Job → Job) : Prop :=
  ∀ j, (set j).id = j.id ∧ (set j).idempotency = j.idempotency

/-- A claim keeps both. -/
theorem claimRow_keeps (workerID : String) (token : UUID) (deadline now : Time) :
    Keeps (claimRow workerID token deadline now) := fun _ => ⟨rfl, rfl⟩

/-- A change of the state keeps both. -/
theorem state_keeps (state : State) : Keeps fun j => { j with state } := fun _ => ⟨rfl, rfl⟩

/-- A heartbeat keeps both. -/
theorem deadline_keeps (deadline : Time) : Keeps fun j => { j with deadline := some deadline } :=
  fun _ => ⟨rfl, rfl⟩

/-- A completion keeps both. -/
theorem succeedRow_keeps (now : Time) : Keeps (succeedRow now) := fun _ => ⟨rfl, rfl⟩

/-- A failed attempt keeps both. -/
theorem failRow_keeps (row : Job) (errMsg : String) (nextRunAt : Option Time) :
    Keeps (failRow row.attempt row.maxRetries errMsg nextRunAt) := fun _ => ⟨rfl, rfl⟩

/-- A requeueing keeps both. -/
theorem requeueRow_keeps : Keeps requeueRow := fun _ => ⟨rfl, rfl⟩

/-- A promotion keeps both. -/
theorem pending_keeps (runAt : Time) : Keeps fun j => { j with state := .pending, runAt } :=
  fun _ => ⟨rfl, rfl⟩

/-- A replay keeps both. -/
theorem replayRow_keeps : Keeps replayRow := fun _ => ⟨rfl, rfl⟩

/-- A forced failure keeps both. -/
theorem forceFailRow_keeps : Keeps forceFailRow := fun _ => ⟨rfl, rfl⟩

namespace Statements

/-- A single statement on the jobs, which commits by itself. -/
def exec (holds : Job → Bool) (change : Change Job.id Job.idempotency) (missing : Reply) :
    Statements :=
  .write holds change (.finish missing) fun _ => .commit (.finish .nil)

/-- `TryClaim`. -/
def tryClaim (jobID : UUID) (workerID : String) (token : UUID) (deadline : Time) (runID : UUID)
    (now : Time) : Statements :=
  .lock (claimable jobID) true (.finish .unclaimed) fun _ =>
    let insert := .insertLog (openRun runID now) (.commit (.finish (.claimed runID)))
    -- The update names the job alone, since the row is locked by now.
    .write (fun j => j.id == jobID)
      (setColumns (claimRow workerID token deadline now)
        (claimRow_keeps workerID token deadline now)) insert fun _ => insert

/-- `MarkRunning`. -/
def markRunning (jobID token : UUID) : Statements :=
  exec (startable jobID token)
    (setColumns (fun j => { j with state := .running }) (state_keeps .running)) .nil

/-- `ExtendDeadline`. -/
def extendDeadline (jobID token : UUID) (deadline : Time) : Statements :=
  exec (owned jobID token)
    (setColumns (fun j => { j with deadline := some deadline }) (deadline_keeps deadline)) .nil

/-- `CompleteJob`, whose second statement is a transaction of its own. -/
def completeJob (jobID runID token : UUID) (now : Time) : Statements :=
  .write (owned jobID token) (setColumns (succeedRow now) (succeedRow_keeps now)) (.finish .nil)
    fun _ => .commit <|
      .updateLog (fun run => run.id == runID) (fun run => run.finish .succeeded now run.error) <|
        .commit (.finish .nil)

/-- `FailJob`. -/
def failJob (jobID runID token : UUID) (errMsg : String) (nextRunAt : Option Time) (now : Time) :
    Statements :=
  .lock (owned jobID token) false (.finish .nil) fun row =>
    let close := .updateLog (fun run => run.id == runID)
      (JobRun.finish (failState (row.attempt + 1) row.maxRetries) now (some errMsg))
      (.commit (.finish .nil))
    -- The new columns are computed from what the locking read returned.
    .write (fun j => j.id == jobID)
      (setColumns (failRow row.attempt row.maxRetries errMsg nextRunAt)
        (failRow_keeps row errMsg nextRunAt))
      close fun _ => close

/-- `RequeueStaleJob`, which commits in both branches. -/
def requeueStaleJob (jobID : UUID) (now dbNow : Time) : Statements :=
  .updateLog (openRunOf jobID) (JobRun.finish .failed now (some heartbeatExpired)) <|
    .write (stale jobID dbNow) (setColumns requeueRow requeueRow_keeps)
      (.commit (.finish (.requeued false)))
      fun row => .commit (.finish (.requeued (row.state == .dead)))

/-- `PromoteScheduledToPending`. -/
def promoteScheduledToPending (jobID : UUID) : Statements :=
  exec (fun j => j.id == jobID && j.state == .scheduled)
    (setColumns (fun j => { j with state := .pending }) (state_keeps .pending)) .nil

/-- `PromoteFailedToPending`. -/
def promoteFailedToPending (jobID : UUID) (dbNow : Time) : Statements :=
  exec (fun j => j.id == jobID && j.state == .failed)
    (setColumns (fun j => { j with state := .pending, runAt := dbNow }) (pending_keeps dbNow)) .nil

/-- `CancelJob`. -/
def cancelJob (jobID tenantID : UUID) : Statements :=
  exec (cancellable jobID tenantID) .delete .notFound

/-- `ReplayJob`, which reads the job once its reset is committed. -/
def replayJob (jobID tenantID : UUID) : Statements :=
  .write (replayable jobID tenantID) (setColumns replayRow replayRow_keeps) (.finish .notFound)
    fun _ => .commit <| .read fun row => .finish (row.elim .notFound .job)

/-- The `force-fail` command. -/
def cmdForceFail (jobID : UUID) : Statements :=
  exec (forceFailable jobID) (setColumns forceFailRow forceFailRow_keeps) .notFoundOrTerminal

/-- The `replay` command up to its queueing, which does not look at what its update has changed. -/
def cmdReplay (jobID : UUID) : Statements :=
  .read fun row => match row with
    | none => .finish .notFound
    | some j =>
      if j.state != .dead then .finish (.notDead j.state)
      else exec (fun j => j.id == jobID && j.state == .dead)
        (setColumns replayRow replayRow_keeps) .nil

/-- `MoveToDeadLetter`, whose only row is one of a third table and comes from a plain read. -/
def moveToDeadLetter : Statements := .read fun _ => .commit (.finish .nil)

end Statements

/-- The calls on stored jobs that processes make concurrently. -/
inductive JobCall where
  | tryClaim (jobID : UUID) (workerID : String) (token : UUID) (deadline : Time) (runID : UUID)
      (now : Time)
  | markRunning (jobID token : UUID)
  | extendDeadline (jobID token : UUID) (deadline : Time)
  | completeJob (jobID runID token : UUID) (now : Time)
  | failJob (jobID runID token : UUID) (errMsg : String) (nextRunAt : Option Time) (now : Time)
  | requeueStaleJob (jobID : UUID) (now dbNow : Time)
  | promoteScheduledToPending (jobID : UUID)
  | promoteFailedToPending (jobID : UUID) (dbNow : Time)
  | cancelJob (jobID tenantID : UUID)
  | replayJob (jobID tenantID : UUID)
  | cmdForceFail (jobID : UUID)

namespace JobCall

/-- The job that a call names. -/
def jobID : JobCall → UUID
  | tryClaim jobID .. | markRunning jobID .. | extendDeadline jobID .. | completeJob jobID ..
  | failJob jobID .. | requeueStaleJob jobID .. | promoteScheduledToPending jobID
  | promoteFailedToPending jobID .. | cancelJob jobID .. | replayJob jobID ..
  | cmdForceFail jobID => jobID

/-- The statements of a call. -/
def statements : JobCall → Statements
  | tryClaim jobID workerID token deadline runID now =>
    .tryClaim jobID workerID token deadline runID now
  | markRunning jobID token => .markRunning jobID token
  | extendDeadline jobID token deadline => .extendDeadline jobID token deadline
  | completeJob jobID runID token now => .completeJob jobID runID token now
  | failJob jobID runID token errMsg nextRunAt now =>
    .failJob jobID runID token errMsg nextRunAt now
  | requeueStaleJob jobID now dbNow => .requeueStaleJob jobID now dbNow
  | promoteScheduledToPending jobID => .promoteScheduledToPending jobID
  | promoteFailedToPending jobID dbNow => .promoteFailedToPending jobID dbNow
  | cancelJob jobID tenantID => .cancelJob jobID tenantID
  | replayJob jobID tenantID => .replayJob jobID tenantID
  | cmdForceFail jobID => .cmdForceFail jobID

/-- The same call as one indivisible step. -/
def op : JobCall → Op
  | tryClaim jobID workerID token deadline runID now =>
    .tryClaim jobID workerID token deadline runID now
  | markRunning jobID token => .markRunning jobID token
  | extendDeadline jobID token deadline => .extendDeadline jobID token deadline
  | completeJob jobID runID token now => .completeJob jobID runID token now
  | failJob jobID runID token errMsg nextRunAt now =>
    .failJob jobID runID token errMsg nextRunAt now
  | requeueStaleJob jobID now dbNow => .requeueStaleJob jobID now dbNow
  | promoteScheduledToPending jobID => .promoteScheduledToPending jobID
  | promoteFailedToPending jobID dbNow => .promoteFailedToPending jobID dbNow
  | cancelJob jobID tenantID => .cancelJob jobID tenantID
  | replayJob jobID tenantID => .replayJob jobID tenantID
  | cmdForceFail jobID => .cmdForceFail jobID

/-- What a call does to the jobs, with no runs in the way of its statements. -/
def onJobs (c : JobCall) (jobs : Jobs) : Jobs := (c.op.apply { Db.empty with jobs }).jobs

/-- The answers of `TryClaim` and `CancelJob` as indivisible steps. -/
def answer (jobs : Jobs) : JobCall → Option Reply
  | tryClaim jobID workerID token deadline runID now =>
    some ((Sluice.tryClaim jobID workerID token deadline runID now
      { Db.empty with jobs }).1.elim .unclaimed .claimed)
  | cancelJob jobID tenantID =>
    some (if (Sluice.cancelJob jobID tenantID { Db.empty with jobs }).1.isOk then .nil
      else .notFound)
  -- The answers of the other calls are not observed.
  | _ => none

/-- What is observed of a call's answer. -/
def observed (reply : Option Reply) : JobCall → Option Reply
  | tryClaim .. | cancelJob .. => reply
  | _ => none

/-- The calls as indivisible steps one after the other, with the answers that are observed. -/
def serial (jobs : Jobs) : List JobCall → Jobs × List (Option Reply)
  | [] => (jobs, [])
  | c :: calls =>
    ((serial (c.onJobs jobs) calls).1, c.answer jobs :: (serial (c.onJobs jobs) calls).2)

/-- Any number of calls on the same tables, before their first statement. -/
def launch {n : Nat} (calls : Fin n → JobCall) (jobs : Jobs) (jobRuns : List JobRun) :
    Machine Job.id Job.idempotency JobRun Reply (Fin n) :=
  .start jobs jobRuns (fun i => (calls i).jobID) fun i => (calls i).statements

/-- The calls that open and close a claim, and write both tables. -/
def ofClaim : JobCall → Bool
  | tryClaim .. | completeJob .. | failJob .. | requeueStaleJob .. => true
  | _ => false

/-- The call that writes both tables without a transaction around its statements. -/
def untransacted : JobCall → Bool
  | completeJob .. => true
  | _ => false

/--
A call that runs alone and is stopped by an error after a number of its statements and commits.

The error is that of the next `BEGIN`, statement or `COMMIT`, so what is not committed by then never
will be. A statement that fails by itself stops the call just there, and a call that has answered by
then has met no error.
-/
def interrupted (c : JobCall) (n : Nat) (jobs : Jobs) (jobRuns : List JobRun) :
    Machine Job.id Job.idempotency JobRun Reply (Fin 1) :=
  (launch (fun _ => c) jobs jobRuns).advance 0 n

end JobCall

/-- The calls that touch jobs or runs: those on one job, and two that read it before they write. -/
inductive TableCall where
  | job (call : JobCall)
  | moveToDeadLetter (jobID : UUID)
  | cmdReplay (jobID : UUID)

/-- A number of calls under way on the two tables. -/
abbrev JobMachine (n : Nat) := Machine Job.id Job.idempotency JobRun Reply (Fin n)

/-- What can happen to the tables and to the calls under way. -/
abbrev JobEvent (n : Nat) := Machine.Event Job Reply (Fin n)

namespace TableCall

/-- The job that a call names. -/
def jobID : TableCall → UUID
  | job call => call.jobID
  | moveToDeadLetter jobID | cmdReplay jobID => jobID

/-- The statements of a call. -/
def statements : TableCall → Statements
  | job call => call.statements
  | moveToDeadLetter _ => .moveToDeadLetter
  | cmdReplay jobID => .cmdReplay jobID

/-- Any number of calls on the same tables, before their first statement. -/
def launch {n : Nat} (calls : Fin n → TableCall) (jobs : Jobs) (jobRuns : List JobRun) :
    JobMachine n :=
  .start jobs jobRuns (fun i => (calls i).jobID) fun i => (calls i).statements

end TableCall

end Sluice
