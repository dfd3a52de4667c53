import Sluice.Api.Dashboard
import Sluice.Api.Server

/-! The whole HTTP server: its middleware, the routes, and who is behind them. -/

namespace Sluice

/-- A request as it arrives, with the bodies that decoding makes of it and what it meets. -/
structure HttpRequest where
  method : String
  path : String
  authorization : String
  -- `X-Request-ID`, which is empty when it is missing.
  requestID : String
  -- The first value of each query parameter.
  query : String → String
  jobBody : Option SubmitJobRequest
  scheduleBody : Option CreateScheduleRequest
  draw : Draw
  correlationID : String
  llenFails : String → Bool

/-- What the body of an answer holds. -/
inductive Payload where
  | api (body : Body)
  | stats (shown : Snapshot)
  | runs (runs : List (JobRun × String))
  | deadLetter (entries : List DeadLetterEntry)
  | metrics
  | stream
  | text (text : String)
  deriving DecidableEq

/-- An answer, with the headers that the middleware sets. -/
structure HttpResponse where
  status : Nat
  headers : List (String × String)
  payload : Payload
  deriving DecidableEq

/-- What is found under `/v1`. -/
inductive Target where
  | endpoint (e : Endpoint)
  | stats
  | recentRuns (limit : String)
  | deadLetter (limit : String)
  | notFound
  | methodNotAllowed

/-- Where the router sends a request. -/
inductive Route where
  | healthz
  | metrics
  | socket
  | notFound
  | methodNotAllowed
  | v1 (target : Target)

/-- The methods that the router knows. -/
def knownMethods : List String :=
  ["CONNECT", "DELETE", "GET", "HEAD", "OPTIONS", "PATCH", "POST", "PUT", "TRACE"]

/-- The segments of a path. -/
def segments (path : String) : List String :=
  (path.toList.splitOn '/').map String.ofList

namespace HttpRequest

/-- The parameters of a job listing. -/
def listParams (r : HttpRequest) : ListParams :=
  ⟨r.query "state", r.query "limit", r.query "offset"⟩

/-- The methods of a path under `/v1`, with what they lead to. -/
def leaves (r : HttpRequest) : List String → List (String × Target)
  | ["jobs"] =>
    [("POST", .endpoint (.submitJob r.jobBody)), ("GET", .endpoint (.listJobs r.listParams))]
  -- A parameter at the end of a path is not empty, unlike one before another segment.
  | ["jobs", id] => if id = "" then [] else [("GET", .endpoint (.getJob id))]
  | ["jobs", id, "cancel"] => [("POST", .endpoint (.cancelJob id))]
  | ["jobs", id, "replay"] => [("POST", .endpoint (.replayJob id))]
  | ["schedules"] =>
    [("POST", .endpoint (.createSchedule r.scheduleBody)), ("GET", .endpoint .listSchedules)]
  | ["schedules", id] =>
    if id = "" then []
    else [("GET", .endpoint (.getSchedule id)), ("DELETE", .endpoint (.deleteSchedule id))]
  | ["stats"] => [("GET", .stats)]
  | ["stats", "runs"] => [("GET", .recentRuns (r.query "limit"))]
  | ["stats", "dead-letter"] => [("GET", .deadLetter (r.query "limit"))]
  | _ => []

/-- What a path under `/v1` and the request's method lead to. -/
def target (r : HttpRequest) (path : List String) : Target :=
  let leaves := r.leaves path
  if leaves.isEmpty then .notFound else (leaves.lookup r.method).getD .methodNotAllowed

/-- The routes of `New`. -/
def route (r : HttpRequest) : Route :=
  if r.method ∉ knownMethods then .methodNotAllowed
  else match segments r.path with
    | ["", "healthz"] => if r.method = "GET" then .healthz else .methodNotAllowed
    | ["", "metrics"] => .metrics
    | ["", "ws"] => if r.method = "GET" then .socket else .methodNotAllowed
    | "" :: "v1" :: path => .v1 (r.target path)
    | _ => .notFound

end HttpRequest

section Handlers

variable (env : ApiEnv) (s : ApiState) (request : HttpRequest) (status : Nat) (payload : Payload)
  (s' : ApiState)

/-- What is behind `authMiddleware`. -/
def Target.Serves (t : Tenant) : Target → Prop
  | endpoint e =>
    ∃ response, e.Serves env t request.draw s response s' ∧
      status = response.status ∧ payload = .api response.body
  | stats =>
    ∃ shown, HandleStats request.llenFails s shown ∧
      status = 200 ∧ payload = .stats shown ∧ s' = s
  | recentRuns limit =>
    ∃ runs, HandleRecentRuns limit s runs ∧ status = 200 ∧ payload = .runs runs ∧ s' = s
  | deadLetter limit =>
    ∃ entries, HandleDeadLetter limit s entries ∧
      status = 200 ∧ payload = .deadLetter entries ∧ s' = s
  | notFound => status = 404 ∧ payload = .text "404 page not found\n" ∧ s' = s
  | methodNotAllowed => status = 405 ∧ payload = .text "" ∧ s' = s

/-- What is behind the router. -/
def Route.Serves : Route → Prop
  | healthz => status = 200 ∧ payload = .text "" ∧ s' = s
  | metrics => status = 200 ∧ payload = .metrics ∧ s' = s
  -- An upgrade that the client has not asked for properly is refused.
  | socket => (status = 101 ∧ payload = .stream ∨ 400 ≤ status) ∧ s' = s
  | notFound => status = 404 ∧ payload = .text "404 page not found\n" ∧ s' = s
  | methodNotAllowed => status = 405 ∧ payload = .text "" ∧ s' = s
  | v1 target =>
    match authenticate request.authorization s.tenants with
    | .error refusal => status = refusal.status ∧ payload = .api refusal.body ∧ s' = s
    -- The router below looks at path and method only now.
    | .ok t => target.Serves env s request status payload s' t

end Handlers

/-- The headers of `corsMiddleware`. -/
def corsHeaders : List (String × String) :=
  [("Access-Control-Allow-Origin", "*"),
    ("Access-Control-Allow-Headers", "Authorization, Content-Type, X-Request-ID"),
    ("Access-Control-Allow-Methods", "GET, POST, DELETE, OPTIONS")]

/-- The identifier of `correlationMiddleware`. -/
def HttpRequest.correlation (r : HttpRequest) : String :=
  if r.requestID = "" then r.correlationID else r.requestID

/-- A request from its arrival to its answer. -/
def HttpServes (env : ApiEnv) (s : ApiState) (request : HttpRequest) (response : HttpResponse)
    (s' : ApiState) : Prop :=
  -- Every preflight is answered before the router.
  if request.method = "OPTIONS" then response = ⟨204, corsHeaders, .text ""⟩ ∧ s' = s
  else ∃ status payload, request.route.Serves env s request status payload s' ∧
    response = ⟨status, corsHeaders ++ [("X-Request-ID", request.correlation)], payload⟩

end Sluice
