import Sluice.Api.RateLimit
import Sluice.Queue.Redis
import Sluice.Storage.Control
import Sluice.Storage.Scans
import Sluice.Storage.Tenants

/-! What the endpoints for jobs answer, and what they do to the database and to Redis. -/

namespace Sluice

open Relational

/-- What the body of an answer encodes. -/
inductive Body where
  | empty
  | error (message : String)
  | job (j : Job)
  -- The listings also give the number of their entries.
  | jobs (jobs : List Job)
  | schedule (s : Schedule)
  | schedules (schedules : List Schedule)
  deriving DecidableEq

/-- An answer to a request. -/
structure Response where
  status : Nat
  body : Body
  deriving DecidableEq

/-- `writeError`. -/
def writeError (status : Nat) (message : String) : Response := ⟨status, .error message⟩

/-- Everything that requests read and write. -/
structure ApiState where
  db : Db
  tenants : Tenants
  redis : Redis
  counters : Counters

/-- What a request meets besides the stored state: clocks, a drawn identifier, and Redis errors. -/
structure Draw where
  id : UUID
  now : Time
  limiter : LimiterDraw
  enqueueFails : Bool
  deriving DecidableEq

/-- A request at a time by which every clock goes, with Redis up. -/
def Draw.prompt (id : UUID) (now : Time) : Draw :=
  { id, now, enqueueFails := false
    limiter := { now, incrAt := now, incrFails := false, expireAt := now, expireFails := false } }

/-- The state right after the migrations. -/
def ApiState.initial : ApiState where
  db := .empty
  tenants := ⟨[devTenant], by simp, by simp [Tenant.keyed]⟩
  redis _ := []
  counters _ := none

/-- Queues a job, unless Redis fails, which is only logged. -/
def ApiState.enqueue (tenantID jobID : UUID) (priority : Int16) (d : Draw) (s : ApiState) :
    ApiState :=
  if d.enqueueFails then s
  else { s with redis := Sluice.enqueue tenantID jobID priority s.redis }

/-- A submission by the statement it is about to send. -/
inductive Submission where
  | inserting (req : SubmitJobRequest) (j : Job)
  | fetching (key : String)
  | enqueueing (j : Job)
  | answered (response : Response)
  deriving DecidableEq

namespace Submission

/-- The checks of `handleSubmitJob` up to its insertion. -/
def start (t : Tenant) (body : Option SubmitJobRequest) (d : Draw) (s : ApiState) :
    Submission × ApiState :=
  match body with
  | none => (answered (writeError 400 "invalid request body"), s)
  | some req =>
    if req.type = "" then (answered (writeError 400 "type is required"), s)
    else if req.payload.isNone then (answered (writeError 400 "payload is required"), s)
    else
      let (allowed, counters) := allow t.id t.rateLimit d.limiter s.counters
      let s := { s with counters }
      -- A limiter that cannot count lets the submission pass.
      if allowed = some false then (answered (writeError 429 "rate limit exceeded"), s)
      else (inserting req (submittedJob t.id req d.id d.now), s)

/-- The next statement of `handleSubmitJob`. -/
def step (t : Tenant) (d : Draw) (s : ApiState) : Submission → Submission × ApiState
  | inserting req j =>
    match insertJob j s.db with
    | (.ok (), db) =>
      (if j.state == .pending then enqueueing j else answered ⟨201, .job j⟩, { s with db })
    | (.error .duplicate, _) =>
      match req.idempotencyKey with
      | some key => (fetching key, s)
      | none => (answered (writeError 409 "duplicate idempotency key"), s)
    | (.error _, _) => (answered (writeError 500 "failed to create job"), s)
  | fetching key =>
    match getJobByIdempotencyKey t.id key s.db.jobs with
    | .ok existing => (answered ⟨200, .job existing⟩, s)
    | .error _ => (answered (writeError 409 "duplicate idempotency key"), s)
  | enqueueing j => (answered ⟨201, .job j⟩, s.enqueue j.tenantID j.id j.priority d)
  | answered response => (answered response, s)

/-- The answer of a submission that has been carried out. -/
def response : Submission → Option Response
  | answered response => some response
  | _ => none

end Submission

/-- `handleSubmitJob`, as the submission and the state after all of its statements. -/
def handleSubmitJob (t : Tenant) (body : Option SubmitJobRequest) (d : Draw) (s : ApiState) :
    Submission × ApiState :=
  let (submission, s) := Submission.start t body d s
  let (submission, s) := submission.step t d s
  submission.step t d s

/-- `handleGetJob`. -/
def handleGetJob (t : Tenant) (id : String) (s : ApiState) : Response :=
  match UUID.parse id with
  | none => writeError 400 "invalid job id"
  | some id =>
    match getJobForTenant id t.id s.db.jobs with
    | .ok j => ⟨200, .job j⟩
    | .error .notFound => writeError 404 "job not found"
    | .error _ => writeError 500 "failed to get job"

/-- `strconv.Atoi`. -/
def atoi (text : String) : Option Int :=
  let (negative, digits) := match text.toList with
    | '-' :: digits => (true, digits)
    | '+' :: digits => (false, digits)
    | digits => (false, digits)
  if digits = [] ∨ digits.any (fun c => !c.isDigit) then none
  else
    let n : Nat := digits.foldl (fun n c => n * 10 + (c.toNat - '0'.toNat)) 0
    let n : Int := if negative then -n else n
    if -9223372036854775808 ≤ n ∧ n ≤ 9223372036854775807 then some n else none

/-- The parameters of a job listing, which are empty when they are not given. -/
structure ListParams where
  state : String
  limit : String
  offset : String

/-- The filter of `handleListJobs`, if the state asked for is one. -/
def ListParams.filter (p : ListParams) (t : Tenant) : Option ListFilter :=
  let limit := match atoi p.limit with
    | some n => if 0 < n ∧ n ≤ 500 then n.toNat else 50
    | none => 50
  let offset := match atoi p.offset with
    | some n => n.toNat
    | none => 0
  if p.state = "" then some { tenantID := some t.id, state := none, limit, offset }
  else (State.ofLabel p.state).map fun state =>
    { tenantID := some t.id, state := some state, limit, offset }

/-- `handleListJobs`, which may answer with any page that the database may give. -/
def HandleListJobs (t : Tenant) (p : ListParams) (s : ApiState) (response : Response) : Prop :=
  match p.filter t with
  -- The database does not know the state.
  | none => response = writeError 500 "failed to list jobs"
  | some filter =>
    ∃ jobs, (listJobs filter).Answers s.db.jobs.rows jobs ∧ response = ⟨200, .jobs jobs⟩

/-- `handleCancelJob`. -/
def handleCancelJob (t : Tenant) (id : String) (s : ApiState) : Response × ApiState :=
  match UUID.parse id with
  | none => (writeError 400 "invalid job id", s)
  | some id =>
    match cancelJob id t.id s.db with
    | (.ok (), db) => (⟨204, .empty⟩, { s with db })
    | (.error .notFound, _) => (writeError 404 "job not found or not cancellable", s)
    | (.error _, _) => (writeError 500 "failed to cancel job", s)

/-- `handleReplayJob`. -/
def handleReplayJob (t : Tenant) (id : String) (d : Draw) (s : ApiState) : Response × ApiState :=
  match UUID.parse id with
  | none => (writeError 400 "invalid job id", s)
  | some id =>
    match replayJob id t.id s.db with
    | (.ok j, db) => (⟨200, .job j⟩, ({ s with db } : ApiState).enqueue t.id id j.priority d)
    | (.error .notFound, db) => (writeError 404 "job not found or not in dead state", { s with db })
    | (.error _, db) => (writeError 500 "failed to replay job", { s with db })

end Sluice
