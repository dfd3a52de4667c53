import Mathlib.Data.BitVec
import Sluice.Job.Json

/-! The job record with its states, identifiers and times, and the job a submission asks for. -/

namespace Sluice

/-- The sixteen bytes of a `uuid.UUID`, most significant first. -/
abbrev UUID := BitVec 128

/-- Numbers below the size of an identifier are told apart by the identifiers they make. -/
theorem UUID.ofNat_inj {i j : Nat} (small : i < 2 ^ 128) (small' : j < 2 ^ 128)
    (same : (BitVec.ofNat 128 i : UUID) = BitVec.ofNat 128 j) : i = j := by
  have numbers := congrArg BitVec.toNat same
  rw [BitVec.toNat_ofNat, BitVec.toNat_ofNat] at numbers
  omega

/-- Microseconds since the Unix epoch, the resolution of a `TIMESTAMPTZ` column. -/
abbrev Time := Int

/-- One second. -/
def second : Time := 1000000

/-- One minute. -/
def minute : Time := 60 * second

/-- One day. -/
def day : Time := 1440 * minute

/-- The textual form `xxxxxxxx-xxxx-xxxx-xxxx-xxxxxxxxxxxx` of an identifier. -/
def UUID.toString (id : UUID) : String :=
  -- Dashes stand before the ninth, thirteenth, seventeenth, and twenty-first digit.
  String.ofList <| (List.range 32).flatMap fun i =>
    (if i ∈ [8, 12, 16, 20] then ['-'] else []) ++ [Nat.digitChar (id.toNat / 16 ^ (31 - i) % 16)]

/-- The value of a hexadecimal digit. -/
def hexDigit (c : Char) : Option Nat :=
  if '0' ≤ c ∧ c ≤ '9' then some (c.toNat - '0'.toNat)
  else if 'a' ≤ c ∧ c ≤ 'f' then some (c.toNat - 'a'.toNat + 10)
  else if 'A' ≤ c ∧ c ≤ 'F' then some (c.toNat - 'A'.toNat + 10)
  else none

/-- The identifier that a list of hexadecimal digits spells. -/
def UUID.ofHex (digits : List Char) : Option UUID :=
  (digits.mapM hexDigit).map fun values =>
    BitVec.ofNat 128 (values.foldl (fun n value => n * 16 + value) 0)

/-- Reads the dashed form, ignoring what follows it. -/
def UUID.ofDashed (s : List Char) : Option UUID :=
  if s[8]? = some '-' ∧ s[13]? = some '-' ∧ s[18]? = some '-' ∧ s[23]? = some '-' then
    UUID.ofHex (s.take 8 ++ (s.drop 9).take 4 ++ (s.drop 14).take 4 ++ (s.drop 19).take 4 ++
      (s.drop 24).take 12)
  else none

/-- `uuid.Parse`, which also takes a URN, braces of any kind, and plain digits. -/
def UUID.parse (text : String) : Option UUID :=
  let s := text.toList
  -- No other text than ASCII is accepted, so characters count as bytes.
  if s.any fun c => decide (127 < c.toNat) then none
  else if s.length = 36 then UUID.ofDashed s
  else if s.length = 36 + 9 then
    if (s.take 9).map Char.toLower == "urn:uuid:".toList then UUID.ofDashed (s.drop 9) else none
  else if s.length = 36 + 2 then UUID.ofDashed (s.drop 1)
  else if s.length = 32 then UUID.ofHex s
  else none

/-- The `job_state` enumeration. -/
inductive State where
  -- Waiting for a worker, or for the run time to arrive.
  | pending
  | scheduled
  -- Held by a worker, before and during its execution.
  | claimed
  | running
  -- Done, waiting for a retry, or given up.
  | succeeded
  | failed
  | dead
  deriving DecidableEq, Repr

/-- The label of a state in the database and in requests. -/
def State.label : State → String
  | .pending => "pending"
  | .scheduled => "scheduled"
  | .claimed => "claimed"
  | .running => "running"
  | .succeeded => "succeeded"
  | .failed => "failed"
  | .dead => "dead"

/-- The state with a label, which the database insists on when it casts to `job_state`. -/
def State.ofLabel (label : String) : Option State :=
  [pending, scheduled, claimed, running, succeeded, failed, dead].find? fun s => s.label == label

/-- The two states in which a worker holds the job. -/
def State.inFlight : State → Bool
  | .claimed | .running => true
  | _ => false

/-- The high-priority lane's bound. -/
def priorityHigh : Int16 := 1

/-- The default priority. -/
def priorityNormal : Int16 := 5

/-- A job, which is also a row of the `jobs` table once its payload is there. -/
structure Job where
  id : UUID
  tenantID : UUID
  type : String
  payload : Option Json
  priority : Int16
  state : State
  runAt : Time
  claimedAt : Option Time
  claimedBy : Option String
  claimToken : Option UUID
  deadline : Option Time
  attempt : Int
  maxRetries : Int
  backoffSeconds : Int
  idempotencyKey : Option String
  lastError : Option String
  createdAt : Time
  completedAt : Option Time
  deriving DecidableEq

namespace Job

/-- Whether no further work is due on the job. -/
def isTerminal (j : Job) : Bool := j.state == .succeeded || j.state == .dead

/-- Whether a failing attempt is followed by another one. -/
def shouldRetry (j : Job) : Bool := decide (j.attempt < j.maxRetries)

end Job

/-- The body of a submission. -/
structure SubmitJobRequest where
  type : String
  payload : Option Json
  priority : Option Int16
  runAt : Option Time
  maxRetries : Option Int
  backoffSeconds : Option Int
  idempotencyKey : Option String
  deriving DecidableEq

/-- A request that leaves every optional field out. -/
def SubmitJobRequest.bare (type : String) (payload : Json) : SubmitJobRequest :=
  ⟨type, some payload, none, none, none, none, none⟩

/-- A payload that says no more of a webhook than where it is. -/
def hookPayload : Json := .object (.cons "url" (.string "https://example.com/hook") .nil)

/-- A request to call that webhook. -/
def SubmitJobRequest.hook : SubmitJobRequest := .bare "webhook" hookPayload

/-- Whether the run time asked for lies in the future. -/
def SubmitJobRequest.delayed (req : SubmitJobRequest) (now : Time) : Bool :=
  req.runAt.any fun runAt => decide (now < runAt)

/-- The job `handleSubmitJob` builds for a tenant, with a freshly drawn identifier. -/
def submittedJob (tenantID : UUID) (req : SubmitJobRequest) (id : UUID) (now : Time) : Job :=
  { id, tenantID
    type := req.type
    payload := req.payload
    priority := req.priority.getD priorityNormal
    -- A run time that has already come is replaced by the present.
    state := if req.delayed now then .scheduled else .pending
    runAt := if req.delayed now then req.runAt.getD now else now
    claimedAt := none, claimedBy := none, claimToken := none, deadline := none
    attempt := 0
    maxRetries := req.maxRetries.getD 3
    backoffSeconds := req.backoffSeconds.getD 30
    idempotencyKey := req.idempotencyKey
    lastError := none
    createdAt := now
    completedAt := none }

end Sluice
