import Sluice.Api.Handler

/-! What the dashboard is shown, which is about all tenants at once. -/

namespace Sluice

open Relational

/-- `CountJobsByState`, which has no entry for a state that no job is in. -/
def countJobsByState (jobs : Jobs) : List (State × Nat) :=
  let states : List State :=
    [.pending, .scheduled, .claimed, .running, .succeeded, .failed, .dead]
  (states.map fun state => (state, jobs.affected fun j => j.state == state)).filter
    fun entry => entry.2 != 0

/-- What `handleStats` answers, and what the stream of `handleWebSocket` sends once a second. -/
structure Snapshot where
  queues : List QueueDepth
  jobsByState : List (State × Nat)
  deriving DecidableEq

/-- `handleStats`, with the lists that Redis gives no answer for. -/
def HandleStats (fails : String → Bool) (s : ApiState) (shown : Snapshot) : Prop :=
  ∃ tenants, getTenants.Answers s.tenants.rows tenants ∧
    shown = ⟨queueDepths fails tenants s.redis, countJobsByState s.db.jobs⟩

/-- The columns of `dead_letter` that are shown. -/
structure DeadLetterEntry where
  jobID : UUID
  tenantID : UUID
  attemptCount : Int
  finalError : Option String
  movedAt : Time
  deriving DecidableEq

/-- The shown columns of a row. -/
def DeadLetter.entry (row : DeadLetter) : DeadLetterEntry where
  jobID := row.jobID
  tenantID := row.tenantID
  attemptCount := row.attemptCount
  finalError := row.finalError
  movedAt := row.movedAt

/-- `ListDeadLetter`. -/
def listDeadLetter (limit : Nat) : Query DeadLetter where
  holds _ := true
  before a b := decide (b.movedAt ≤ a.movedAt)
  offset := 0
  limit := some limit

/-- The limit of the two listings. -/
def dashboardLimit (text : String) : Nat :=
  match atoi text with
  | some n => if 0 < n ∧ n ≤ 500 then n.toNat else 50
  | none => 50

/-- `handleRecentRuns`. -/
def HandleRecentRuns (limit : String) (s : ApiState) (runs : List (JobRun × String)) : Prop :=
  (listRecentRuns (dashboardLimit limit)).Answers s.db.joinedRuns runs

/-- `handleDeadLetter`. -/
def HandleDeadLetter (limit : String) (s : ApiState) (entries : List DeadLetterEntry) : Prop :=
  ∃ rows, (listDeadLetter (dashboardLimit limit)).Answers s.db.deadLetter.rows rows ∧
    entries = rows.map DeadLetter.entry

end Sluice
