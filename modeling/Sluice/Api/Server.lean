import Sluice.Api.ScheduleHandler
import Sluice.Job.Json

/-! The routes behind authentication. -/

namespace Sluice

/-- White space as `strings.TrimSpace` knows it. -/
def isSpace (c : Char) : Bool :=
  c ∈ [' ', '\t', '\n', '\r', '\u000B', '\u000C', '\u0085', '\u00A0',
    '\u1680', '\u2028', '\u2029', '\u202F', '\u205F', '\u3000'] ||
    decide (0x2000 ≤ c.toNat ∧ c.toNat ≤ 0x200A)

/-- `strings.TrimSpace`. -/
def trimSpace (s : List Char) : List Char :=
  ((s.dropWhile isSpace).reverse.dropWhile isSpace).reverse

/-- `extractBearerToken`, on the `Authorization` header, which is empty when it is missing. -/
def extractBearerToken (header : String) : String :=
  -- The header is split at its first blank, and a missing second part is no token.
  let (scheme, rest) := header.toList.span (· ≠ ' ')
  match rest with
  | [] => ""
  | _ :: token =>
    if scheme.map foldChar == "bearer".toList then String.ofList (trimSpace token) else ""

/-- The part of `authMiddleware` before the handler. -/
def authenticate (header : String) (tenants : Tenants) : Except Response Tenant :=
  let key := extractBearerToken header
  -- Tenants that are not active are refused like unknown keys.
  if key = "" then .error (writeError 401 "missing api key")
  else match getTenantByAPIKey key tenants with
    | .error _ => .error (writeError 401 "invalid api key")
    | .ok t => .ok t

/-- The endpoints that act for one tenant, with what a request brings to them. -/
inductive Endpoint where
  | submitJob (body : Option SubmitJobRequest)
  | listJobs (params : ListParams)
  | getJob (id : String)
  | cancelJob (id : String)
  | replayJob (id : String)
  | createSchedule (body : Option CreateScheduleRequest)
  | listSchedules
  | getSchedule (id : String)
  | deleteSchedule (id : String)

/-- A request, with what it meets when it is served. -/
structure Request where
  authorization : String
  endpoint : Endpoint
  draw : Draw

/-- The handlers, each of which answers once and leaves a state behind. -/
def Endpoint.Serves (env : ApiEnv) (t : Tenant) (d : Draw) (s : ApiState) (response : Response)
    (s' : ApiState) : Endpoint → Prop
  | submitJob body =>
    (handleSubmitJob t body d s).1 = .answered response ∧ s' = (handleSubmitJob t body d s).2
  | listJobs params => HandleListJobs t params s response ∧ s' = s
  | getJob id => response = handleGetJob t id s ∧ s' = s
  | cancelJob id => (response, s') = handleCancelJob t id s
  | replayJob id => (response, s') = handleReplayJob t id d s
  | createSchedule body => (response, s') = handleCreateSchedule env t body d s
  | listSchedules => HandleListSchedules env t s response ∧ s' = s
  -- The only handler that does not get to know the tenant.
  | getSchedule id => response = handleGetSchedule id s ∧ s' = s
  | deleteSchedule id => (response, s') = handleDeleteSchedule t id s

/-- The endpoints that decide which schedules there are. -/
def Endpoint.maintainsSchedules : Endpoint → Bool
  | createSchedule _ | deleteSchedule _ => true
  | _ => false

/-- A request from its authentication to its answer. -/
def Serves (env : ApiEnv) (s : ApiState) (request : Request) (response : Response)
    (s' : ApiState) : Prop :=
  match authenticate request.authorization s.tenants with
  | .error refusal => response = refusal ∧ s' = s
  | .ok t => request.endpoint.Serves env t request.draw s response s'

/-- A creation or deletion of a schedule, with whatever answer. -/
def MaintainsSchedules (env : ApiEnv) (s : ApiState) (request : Request) (s' : ApiState) : Prop :=
  request.endpoint.maintainsSchedules = true ∧ ∃ response, Serves env s request response s'

/-- Requests one after the other, with the answers they get. -/
def ServesAll (env : ApiEnv) : ApiState → List Request → List Response → Prop
  | _, [], responses => responses = []
  | s, request :: requests, responses =>
    ∃ response s' rest, Serves env s request response s' ∧ ServesAll env s' requests rest ∧
      responses = response :: rest

end Sluice
