import Sluice.Api.Router
import Sluice.Proofs.Integrity

/-! Who can change the stored state over HTTP, and what everybody else can learn of it. -/

namespace Sluice

open Relational Transition

/-- A request with the answer it has got. -/
structure Exchange where
  request : HttpRequest
  response : HttpResponse

/-- One request after the other. -/
def Exchanges (env : ApiEnv) (s : ApiState) (x : Exchange) (s' : ApiState) : Prop :=
  HttpServes env s x.request x.response s'

/--
A request with the key of an admitted tenant and of a method that writes, which is not refused.

Of an answer that reports an error of the server nothing is said.
-/
def Exchange.actsFor (t : Tenant) (x : Exchange) : Prop :=
  extractBearerToken x.request.authorization = t.apiKey ∧ t.admitted = true ∧
    (x.request.method = "POST" ∨ x.request.method = "DELETE") ∧
    (x.response.status < 400 ∨ 500 ≤ x.response.status)

/-- Whether a request to an endpoint can have an effect. -/
def Endpoint.writes : Endpoint → Bool
  | submitJob _ | cancelJob _ | replayJob _ | createSchedule _ | deleteSchedule _ => true
  | listJobs _ | getJob _ | listSchedules | getSchedule _ => false

/-- The same for all that is found under `/v1`. -/
def Target.writes : Target → Bool
  | endpoint e => e.writes
  | _ => false

/-- Everything that belongs to a tenant stands as it stood. -/
structure ApiState.Untouched (tenantID : UUID) (s s' : ApiState) : Prop where
  jobs : s'.db.jobs.rows.filter (Job.of tenantID) = s.db.jobs.rows.filter (Job.of tenantID)
  schedules : s'.db.schedules.rows.filter (Schedule.of tenantID) =
    s.db.schedules.rows.filter (Schedule.of tenantID)
  jobRuns : s'.db.jobRuns.filter (fun run => run.tenantID == tenantID) =
    s.db.jobRuns.filter fun run => run.tenantID == tenantID
  deadLetter : s'.db.deadLetter.rows.filter (fun row => row.tenantID == tenantID) =
    s.db.deadLetter.rows.filter fun row => row.tenantID == tenantID
  lists : ∀ bucket, s'.redis (queueKey bucket tenantID) = s.redis (queueKey bucket tenantID)

namespace ApiState.Untouched

variable {tenantID other : UUID} {s s' s'' : ApiState}

/-- The counters of the rate limit belong to nobody. -/
theorem of_same (db : s'.db = s.db) (redis : s'.redis = s.redis) : s.Untouched tenantID s' := by
  constructor <;> simp [db, redis]

/-- What two requests leave untouched one after the other. -/
theorem trans (first : s.Untouched tenantID s') (next : s'.Untouched tenantID s'') :
    s.Untouched tenantID s'' where
  jobs := next.jobs.trans first.jobs
  schedules := next.schedules.trans first.schedules
  jobRuns := next.jobRuns.trans first.jobRuns
  deadLetter := next.deadLetter.trans first.deadLetter
  lists bucket := (next.lists bucket).trans (first.lists bucket)

/-- What spares all others leaves each of them untouched. -/
theorem of_spares (spares : s.Spares other s') (apart : tenantID ≠ other) :
    s.Untouched tenantID s' where
  jobs := filter_eq_of_spared spares.db.jobs (by simp +contextual [Job.of, apart])
  schedules := filter_eq_of_spared spares.db.schedules (by simp +contextual [Schedule.of, apart])
  jobRuns := filter_eq_of_spared spares.db.jobRuns (by simp +contextual [apart])
  deadLetter := filter_eq_of_spared spares.db.deadLetter (by simp +contextual [apart])
  lists := spares.lists tenantID apart

end ApiState.Untouched

section Refusals

variable {env : ApiEnv} {t : Tenant} {d : Draw} {s s' : ApiState} {response : Response}

/-- A statement of a submission has no effect unless it leads to a job. -/
theorem Submission.step_effect (submission : Submission) :
    (submission.step t d s).2 = s ∨ (∃ j, (submission.step t d s).1 = .enqueueing j) ∨
      ∃ j, (submission.step t d s).1 = .answered ⟨201, .job j⟩ := by
  -- Only an insertion that succeeds and the queueing change anything.
  cases submission with
  | inserting req j =>
    rcases step_inserting t d s req j with ⟨jobs, -, -, done⟩ | ⟨key, -, done⟩ | ⟨_, _, done⟩
    · rw [done]
      dsimp only
      split
      · exact .inr (.inl ⟨j, rfl⟩)
      · exact .inr (.inr ⟨j, rfl⟩)
    · exact .inl (by rw [done])
    · exact .inl (by rw [done])
  | fetching key =>
    left
    simp only [Submission.step]
    split <;> rfl
  | enqueueing j => exact .inr (.inr ⟨j, rfl⟩)
  | answered response => exact .inl rfl

/-- A submission that is refused has been counted at most. -/
theorem handleSubmitJob_refused {body : Option SubmitJobRequest}
    (answered : (handleSubmitJob t body d s).1 = .answered response)
    (refused : 400 ≤ response.status) :
    (handleSubmitJob t body d s).2.db = s.db ∧ (handleSubmitJob t body d s).2.redis = s.redis := by
  -- The checks change the counters alone, and two statements follow at most.
  obtain ⟨counters, started, -⟩ := start_spec t d s body
  unfold handleSubmitJob at answered ⊢
  dsimp only at answered ⊢
  rw [started] at answered ⊢
  generalize (Submission.start t body d s).1 = first at answered ⊢
  have created : ∀ j, Submission.answered ⟨201, .job j⟩ ≠ .answered response := by
    rintro j same
    cases same
    exact absurd refused (by simp)
  rcases first.step_effect (t := t) (d := d) with kept | ⟨j, queued⟩ | ⟨j, done⟩
  · rw [kept] at answered ⊢
    rcases ((first.step t d _).1.step_effect (t := t) (d := d)) with kept | ⟨j, queued⟩ | ⟨j, done⟩
    · rw [kept]
      exact ⟨rfl, rfl⟩
    · rw [queued] at answered
      cases answered
    · exact absurd (done.symm.trans answered) (created j)
  · rw [queued] at answered
    exact absurd answered (created j)
  · rw [done] at answered
    exact absurd answered (created j)

/-- A cancellation that is refused changes nothing. -/
theorem handleCancelJob_refused (id : String) :
    (handleCancelJob t id s).2 = s ∨ (handleCancelJob t id s).1.status < 400 := by
  unfold handleCancelJob
  split
  · exact .inl rfl
  · split
    · exact .inr (by simp)
    · exact .inl rfl
    · exact .inl rfl

/-- Nor does a replay that is refused. -/
theorem handleReplayJob_refused (id : String) :
    (handleReplayJob t id d s).2 = s ∨ (handleReplayJob t id d s).1.status < 400 := by
  unfold handleReplayJob
  split
  · exact .inl rfl
  · rename_i id _
    -- The handler keeps what the call leaves behind even then, which is the same database.
    rcases replayJob_spec id t.id s.db with ⟨row, -, -, done⟩ | done
    · exact .inr (by simp [done])
    · exact .inl (by simp [done])

/-- Nor does the creation of a schedule. -/
theorem handleCreateSchedule_refused (body : Option CreateScheduleRequest) :
    (handleCreateSchedule env t body d s).2 = s ∨
      (handleCreateSchedule env t body d s).1.status < 400 := by
  unfold handleCreateSchedule
  split
  · exact .inl rfl
  · split
    · exact .inr (by simp)
    · exact .inl rfl
    · exact .inl rfl

/-- Nor does its deletion. -/
theorem handleDeleteSchedule_refused (id : String) :
    (handleDeleteSchedule t id s).2 = s ∨ (handleDeleteSchedule t id s).1.status < 400 := by
  unfold handleDeleteSchedule
  split
  · exact .inl rfl
  · split
    · exact .inr (by simp)
    · exact .inl rfl
    · exact .inl rfl

/-- A request that is refused changes neither the database nor the lists. -/
theorem Endpoint.Serves.refused {e : Endpoint} (serves : e.Serves env t d s response s')
    (refused : 400 ≤ response.status) : s'.db = s.db ∧ s'.redis = s.redis := by
  -- All handlers but that of submissions are functions, for which the lemmas above speak.
  have kept : ∀ result : Response × ApiState, (response, s') = result →
      (result.2 = s ∨ result.1.status < 400) → s'.db = s.db ∧ s'.redis = s.redis := by
    rintro _ rfl (rfl | accepted)
    · exact ⟨rfl, rfl⟩
    · exact absurd refused (Nat.not_le.mpr accepted)
  cases e with
  | submitJob body =>
    rw [serves.2]
    exact handleSubmitJob_refused serves.1 refused
  | cancelJob id => exact kept _ serves (handleCancelJob_refused id)
  | replayJob id => exact kept _ serves (handleReplayJob_refused id)
  | createSchedule body => exact kept _ serves (handleCreateSchedule_refused body)
  | deleteSchedule id => exact kept _ serves (handleDeleteSchedule_refused id)
  | listJobs params | getJob id | listSchedules | getSchedule id =>
    rw [serves.2]
    exact ⟨rfl, rfl⟩

/-- An endpoint that only reads leaves the state as it is. -/
theorem Endpoint.Serves.reads {e : Endpoint} (serves : e.Serves env t d s response s')
    (reads : e.writes = false) : s' = s := by
  cases e with
  | listJobs params | getJob id | listSchedules | getSchedule id => exact serves.2
  | submitJob body | cancelJob id | replayJob id | createSchedule body | deleteSchedule id =>
    cases reads

end Refusals

/-- A request is let in exactly with the key of an admitted tenant. -/
theorem authenticate_ok {header : String} {tenants : Tenants} {t : Tenant}
    (passed : authenticate header tenants = .ok t) :
    t ∈ tenants.rows ∧ t.admitted = true ∧ extractBearerToken header = t.apiKey := by
  -- An empty key is refused before the query, which asks for active tenants.
  unfold authenticate getTenantByAPIKey at passed
  dsimp only at passed
  split at passed
  · cases passed
  · rename_i given
    split at passed
    · cases passed
    · rename_i found
      cases passed
      split at found
      · cases found
      · rename_i selected
        cases found
        have hit := List.find?_some selected
        simp only [Bool.and_eq_true, beq_iff_eq] at hit
        refine ⟨List.mem_of_find?_eq_some selected, ?_, hit.1.symm⟩
        simp [Tenant.admitted, hit, given]

namespace HttpRequest

variable {r : HttpRequest}

/-- Only two methods lead to what can have an effect. -/
theorem method_of_leaf (path : List String) :
    ∀ leaf ∈ r.leaves path, leaf.2.writes = true → leaf.1 = "POST" ∨ leaf.1 = "DELETE" := by
  -- The table of routes is finite, so each of its rows is looked at.
  fun_cases leaves r path <;> simp [Target.writes, Endpoint.writes]

/-- So it is for the whole of the routes under `/v1`. -/
theorem method_of_target (path : List String) (writes : (r.target path).writes = true) :
    r.method = "POST" ∨ r.method = "DELETE" := by
  unfold target at writes
  dsimp only at writes
  split at writes
  · cases writes
  · cases found : (r.leaves path).lookup r.method with
    | none =>
      rw [found] at writes
      cases writes
    | some target =>
      -- The method of the request is the one under which the leaf stands.
      rw [found] at writes
      obtain ⟨before, after, parts, -⟩ := List.lookup_eq_some_iff.mp found
      have leaf : (r.method, target) ∈ r.leaves path := by
        rw [parts]
        exact List.mem_append_right before List.mem_cons_self
      exact method_of_leaf path _ leaf writes

/-- And nothing outside `/v1` has an effect. -/
theorem method_of_route {target : Target} (routed : r.route = .v1 target)
    (writes : target.writes = true) : r.method = "POST" ∨ r.method = "DELETE" := by
  unfold route at routed
  split at routed
  · cases routed
  · split at routed
    · split at routed <;> cases routed
    · cases routed
    · split at routed <;> cases routed
    · cases routed
      exact method_of_target _ writes
    · cases routed

end HttpRequest

section Requests

variable {env : ApiEnv} {t : Tenant} {s s' : ApiState} {x : Exchange}

/-- A request changes something only through an endpoint, for the tenant whose key it carries. -/
theorem Exchanges.effect (made : Exchanges env s x s') :
    s' = s ∨ ∃ t e response, authenticate x.request.authorization s.tenants = .ok t ∧
      x.request.route = .v1 (.endpoint e) ∧ e.Serves env t x.request.draw s response s' ∧
      x.response.status = response.status := by
  -- A preflight request gets no further than the middleware.
  unfold Exchanges HttpServes at made
  split at made
  · exact .inl made.2
  · obtain ⟨status, payload, serves, answer⟩ := made
    cases routed : x.request.route with
    | healthz | metrics | notFound | methodNotAllowed =>
      rw [routed] at serves
      exact .inl serves.2.2
    | socket =>
      rw [routed] at serves
      exact .inl serves.2
    | v1 target =>
      -- Under `/v1` the key comes first, and of what follows only the endpoints can write.
      rw [routed, Route.Serves] at serves
      cases checked : authenticate x.request.authorization s.tenants with
      | error refusal =>
        rw [checked] at serves
        exact .inl serves.2.2
      | ok t =>
        rw [checked] at serves
        cases target with
        | endpoint e =>
          obtain ⟨response, serves, same, -⟩ := serves
          exact .inr ⟨t, e, response, rfl, rfl, serves, by rw [answer]; exact same⟩
        | stats | recentRuns limit | deadLetter limit =>
          obtain ⟨_, -, -, -, same⟩ := serves
          exact .inl same
        | notFound | methodNotAllowed => exact .inl serves.2.2

/-- No request changes the tenants. -/
theorem Exchanges.tenants (made : Exchanges env s x s') : s'.tenants = s.tenants := by
  rcases made.effect with rfl | ⟨t, e, response, -, -, serves, -⟩
  · rfl
  · rw [serves.after_eq]
    exact (e.after_spares env t x.request.draw s).tenants

/-- A request that does not act for a tenant leaves the tenant untouched. -/
theorem Exchanges.untouched (made : Exchanges env s x s') (stored : t ∈ s.tenants.rows)
    (idle : ¬ x.actsFor t) : s.Untouched t.id s' := by
  rcases made.effect with rfl | ⟨t', e, response, passed, routed, serves, status⟩
  · exact .of_same rfl rfl
  · obtain ⟨stored', admitted, key⟩ := authenticate_ok passed
    by_cases own : t.id = t'.id
    · -- The key is the tenant's own, so the request only reads, or it is refused.
      obtain rfl := Table.eq_of_key stored stored' own
      cases writes : e.writes with
      | false =>
        rw [serves.reads writes]
        exact .of_same rfl rfl
      | true =>
        have refused : 400 ≤ response.status := by
          by_contra accepted
          refine idle ⟨key, admitted, HttpRequest.method_of_route routed writes, .inl ?_⟩
          rw [status]
          omega
        obtain ⟨db, redis⟩ := serves.refused refused
        exact .of_same db redis
    · -- The key is another tenant's, whose requests spare this one.
      rw [serves.after_eq]
      exact .of_spares (e.after_spares env t' x.request.draw s) own

/--
Whatever is sent to the server, what belongs to a tenant stays as it is, but for requests that carry
the key of the tenant, who is active, have a method that writes, and are not refused.
-/
theorem tenant_untouched (stored : t ∈ s.tenants.rows) {past : List (Step ApiState Exchange)}
    (run : Run (Exchanges env) s past s') (idle : ∀ e ∈ past, ¬ e.label.actsFor t) :
    s.Untouched t.id s' := by
  -- The tenant stays stored all along, so every request can be looked at by itself.
  refine (run.along (fun s' => s'.tenants = s.tenants ∧ s.Untouched t.id s')
    ⟨rfl, .of_same rfl rfl⟩ ?_).2
  rintro mid x next listed ⟨same, untouched⟩ made
  refine ⟨made.tenants.trans same, untouched.trans (made.untouched ?_ (idle _ listed))⟩
  rw [same]
  exact stored

/-- A request with a tenant's key gets the answer of its endpoint. -/
theorem Exchanges.of_endpoint {e : Endpoint} {response : Response}
    (method : x.request.method ≠ "OPTIONS") (routed : x.request.route = .v1 (.endpoint e))
    (passed : authenticate x.request.authorization s.tenants = .ok t)
    (serves : e.Serves env t x.request.draw s response s')
    (answer : x.response = ⟨response.status,
      corsHeaders ++ [("X-Request-ID", x.request.correlation)], .api response.body⟩) :
    Exchanges env s x s' := by
  unfold Exchanges HttpServes
  rw [if_neg method, routed]
  refine ⟨_, _, ?_, answer⟩
  rw [Route.Serves, passed]
  exact ⟨response, serves, rfl, rfl⟩

/-- A request of another tenant, by its method, path, header, and body. -/
def acmeRequest (method path authorization : String) (body : Option SubmitJobRequest) :
    HttpRequest where
  method := method
  path := path
  authorization := authorization
  requestID := ""
  query _ := ""
  jobBody := body
  scheduleBody := none
  draw := .prompt 9 0
  correlationID := "c"
  llenFails _ := false

/-- A second tenant. -/
def acme : Tenant := ⟨7, "acme", "acme-token", 1000, 100, "active"⟩

/-- The two tenants have different identifiers. -/
theorem acme_keyed : ([devTenant, acme].map Tenant.id).Nodup := by decide

/-- They have different keys, too. -/
theorem acme_indexed : ([devTenant, acme].filterMap Tenant.keyed).Nodup := by decide

/-- The state right after the migrations, but for the second tenant. -/
def withAcme : ApiState :=
  { ApiState.initial with tenants := ⟨[devTenant, acme], acme_keyed, acme_indexed⟩ }

/-- The second tenant submits a job. -/
def acmeSubmits : Exchange where
  request := acmeRequest "POST" "/v1/jobs" "Bearer acme-token" (some (.bare "mail" (.object .nil)))
  response :=
    { status := 201
      headers := corsHeaders ++ [("X-Request-ID", "c")]
      payload := .api (.job (submittedJob 7 (.bare "mail" (.object .nil)) 9 0)) }

theorem tenant_untouched_submitted :
    ∃ s', Exchanges .everyMinute withAcme acmeSubmits s' ∧ s'.db.jobs.rows.length = 1 ∧
      withAcme.Untouched devTenant.id s' := by
  have key : extractBearerToken "Bearer acme-token" = acme.apiKey := by decide +kernel
  have passed : authenticate "Bearer acme-token" withAcme.tenants = .ok acme :=
    ((authenticate_own (by simp [withAcme]) key).resolve_right fun refused => by
      cases refused.1).2
  let s' := (handleSubmitJob acme (some (.bare "mail" (.object .nil))) (.prompt 9 0) withAcme).2
  have answered : (handleSubmitJob acme (some (.bare "mail" (.object .nil))) (.prompt 9 0)
      withAcme).1 = .answered ⟨201, .job (submittedJob 7 (.bare "mail" (.object .nil)) 9 0)⟩ := by
    decide +kernel
  have made : Exchanges .everyMinute withAcme acmeSubmits s' :=
    .of_endpoint (e := .submitJob (some (.bare "mail" (.object .nil)))) (by decide) rfl passed
      ⟨answered, rfl⟩ rfl
  have run : Run (Exchanges .everyMinute) withAcme [⟨withAcme, acmeSubmits, s'⟩] s' :=
    .snoc .nil made
  refine ⟨s', made, by decide +kernel, tenant_untouched (by simp [withAcme]) run ?_⟩
  simp only [List.forall_mem_singleton]
  rintro ⟨own, -⟩
  rw [show acmeSubmits.request.authorization = "Bearer acme-token" from rfl, key] at own
  exact absurd own (by decide)

/-- The request carries the key of no tenant that is admitted. -/
def HttpRequest.foreign (r : HttpRequest) (tenants : Tenants) : Prop :=
  ∀ t ∈ tenants.rows, t.admitted = true → extractBearerToken r.authorization ≠ t.apiKey

/-- All but the metrics and the stream, which are open to everybody. -/
def Route.closed : Route → Bool
  | metrics | socket => false
  | healthz | notFound | methodNotAllowed | v1 _ => true

/-- A request with a foreign key is refused, with an answer that depends on the key alone. -/
theorem authenticate_foreign {r : HttpRequest} {tenants : Tenants} (foreign : r.foreign tenants) :
    authenticate r.authorization tenants =
      .error (writeError 401 (if extractBearerToken r.authorization = "" then "missing api key"
        else "invalid api key")) := by
  cases checked : authenticate r.authorization tenants with
  | ok t =>
    obtain ⟨stored, admitted, key⟩ := authenticate_ok checked
    exact absurd key (foreign t stored admitted)
  | error refusal =>
    unfold authenticate at checked
    dsimp only at checked
    split at checked
    · cases checked
      simp [*]
    · split at checked
      · cases checked
        simp [*]
      · cases checked

/-- A foreign request changes nothing, and any other state gives it the same answer. -/
theorem Exchanges.foreign (made : Exchanges env s x s') (foreign : x.request.foreign s.tenants)
    (closed : x.request.route.closed = true) :
    s' = s ∧ ∀ other : ApiState, x.request.foreign other.tenants → Exchanges env other x other := by
  unfold Exchanges HttpServes at made ⊢
  split at made
  · exact ⟨made.2, fun other _ => by simp [*]⟩
  · rename_i preflight
    obtain ⟨status, payload, serves, answer⟩ := made
    simp only [if_neg preflight]
    cases routed : x.request.route with
    | metrics | socket =>
      rw [routed] at closed
      cases closed
    | healthz | notFound | methodNotAllowed =>
      rw [routed] at serves
      exact ⟨serves.2.2, fun other _ => ⟨status, payload, ⟨serves.1, serves.2.1, rfl⟩, answer⟩⟩
    | v1 target =>
      -- Both states refuse the key before they look at anything else.
      rw [routed, Route.Serves, authenticate_foreign foreign] at serves
      refine ⟨serves.2.2, fun other foreign' => ⟨status, payload, ?_, answer⟩⟩
      rw [Route.Serves, authenticate_foreign foreign']
      exact ⟨serves.1, serves.2.1, rfl⟩

/--
Requests without the key of an active tenant change nothing, and their answers tell nothing about
what is stored: they could all have come from any other state that does not know the keys either.

The metrics and the stream of the dashboard are open to everybody.
-/
theorem outsiders_learn_nothing {past : List (Step ApiState Exchange)}
    (run : Run (Exchanges env) s past s')
    (foreign : ∀ e ∈ past, e.label.request.foreign s.tenants)
    (closed : ∀ e ∈ past, e.label.request.route.closed = true) :
    s' = s ∧ ∀ other : ApiState, (∀ e ∈ past, e.label.request.foreign other.tenants) →
      ∃ past', Run (Exchanges env) other past' other ∧
        past'.map Step.label = past.map Step.label := by
  -- The other state answers request by request, and neither of the two ever changes.
  revert foreign closed
  refine run.history (fun past s' => (∀ e ∈ past, e.label.request.foreign s.tenants) →
    (∀ e ∈ past, e.label.request.route.closed = true) → s' = s ∧ ∀ other : ApiState,
      (∀ e ∈ past, e.label.request.foreign other.tenants) → ∃ past',
        Run (Exchanges env) other past' other ∧ past'.map Step.label = past.map Step.label)
    (fun _ _ => ⟨rfl, fun other _ => ⟨[], .nil, rfl⟩⟩) ?_
  intro past mid x next _ ih made foreign closed
  simp only [List.forall_mem_append, List.forall_mem_singleton] at foreign closed
  obtain ⟨rfl, elsewhere⟩ := ih foreign.1 closed.1
  obtain ⟨same, answered⟩ := made.foreign foreign.2 closed.2
  refine ⟨same, fun other foreign' => ?_⟩
  simp only [List.forall_mem_append, List.forall_mem_singleton] at foreign'
  obtain ⟨past', run', labels⟩ := elsewhere other foreign'.1
  exact ⟨_, run'.snoc (answered other foreign'.2), by simp [labels]⟩

/-- Somebody guesses a key, to see a job. -/
def guessed : Exchange where
  request := acmeRequest "GET" "/v1/jobs/00000000-0000-0000-0000-000000000009" "Bearer guess" none
  response :=
    { status := 401
      headers := corsHeaders ++ [("X-Request-ID", "c")]
      payload := .api (.error "invalid api key") }

theorem outsiders_learn_nothing_guessed :
    ∃ past, Run (Exchanges .everyMinute) withBackup past withBackup ∧
      past.map Step.label = [guessed] := by
  have key : extractBearerToken "Bearer guess" = "guess" := by decide +kernel
  have foreign : guessed.request.foreign withAcme.tenants := by
    have unknown : ∀ t ∈ [devTenant, acme], "guess" ≠ t.apiKey := by decide
    intro t stored _
    rw [show guessed.request.authorization = "Bearer guess" from rfl, key]
    exact unknown t stored
  have made : Exchanges .everyMinute withAcme guessed withAcme := by
    refine ⟨401, _, ?_, rfl⟩
    rw [show guessed.request.route =
      .v1 (.endpoint (.getJob "00000000-0000-0000-0000-000000000009")) from rfl, Route.Serves,
      authenticate_foreign foreign]
    exact ⟨rfl, rfl, rfl⟩
  have run : Run (Exchanges .everyMinute) withAcme [⟨withAcme, guessed, withAcme⟩] withAcme :=
    .snoc .nil made
  refine (outsiders_learn_nothing run (by simpa using foreign) ?_).2 withBackup ?_
  · simp only [List.forall_mem_singleton]
    rfl
  · simp only [List.forall_mem_singleton]
    intro t stored _
    rw [show guessed.request.authorization = "Bearer guess" from rfl, key,
      List.mem_singleton.mp stored]
    decide

end Requests

end Sluice
