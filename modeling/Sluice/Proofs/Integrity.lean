import Sluice.Proofs.Confidential
import Sluice.Proofs.RateLimit

/-! What a tenant's requests leave alone. -/

namespace Sluice

open Relational Transition

variable {tenantID : UUID}

/-- Every row of every other tenant stands as it stood. -/
structure Db.Spares (tenantID : UUID) (db db' : Db) : Prop where
  jobs : db.jobs.Spares (Job.of tenantID) db'.jobs
  schedules : db.schedules.Spares (Schedule.of tenantID) db'.schedules
  jobRuns : db'.jobRuns.filter (fun run => run.tenantID != tenantID) =
    db.jobRuns.filter fun run => run.tenantID != tenantID
  deadLetter : db.deadLetter.Spares (fun entry => entry.tenantID == tenantID) db'.deadLetter

/-- A database that nobody touches is spared. -/
theorem Db.Spares.refl (tenantID : UUID) (db : Db) : db.Spares tenantID db := ⟨rfl, rfl, rfl, rfl⟩

section Calls

variable (db : Db)

/-- A new job is a row of its own tenant. -/
theorem insertJob_spares {j : Job} (own : j.tenantID = tenantID) :
    db.Spares tenantID (insertJob j db).2 := by
  rcases insertJob_spec j db with ⟨jobs, stored, -, done⟩ | ⟨e, done⟩
  · rw [done]
    exact ⟨.insert stored (by simp [Job.of, Job.inserted, own]), rfl, rfl, rfl⟩
  · rw [done]
    exact .refl tenantID db

/-- A cancellation deletes no job of another tenant. -/
theorem cancelJob_spares (id tenantID : UUID) :
    db.Spares tenantID (cancelJob id tenantID db).2 := by
  unfold cancelJob
  split
  · exact .refl tenantID db
  · exact ⟨.delete cancellable_own, rfl, rfl, rfl⟩

/-- A replay resets no job of another tenant, and leaves the job with its own. -/
theorem replayJob_spares (id tenantID : UUID) :
    db.Spares tenantID (replayJob id tenantID db).2 := by
  rcases replayJob_spec id tenantID db with ⟨row, -, -, done⟩ | done
  · rw [done]
    have stays : ∀ j : Job, j.of tenantID = true → (replayRow j).of tenantID = true :=
      fun _ mine => mine
    exact ⟨.update replayable_own stays fun _ => ⟨rfl, rfl⟩, rfl, rfl, rfl⟩
  · rw [done]
    exact .refl tenantID db

/-- A new schedule is a row of its own tenant. -/
theorem insertSchedule_spares {sched : Schedule} (own : sched.tenantID = tenantID) :
    db.Spares tenantID (insertSchedule sched db).2 := by
  rcases insertSchedule_spec sched db with ⟨schedules, stored, done⟩ | done
  · rw [done]
    exact ⟨rfl, .insert stored (by simp [Schedule.of, Schedule.inserted, own]), rfl, rfl⟩
  · rw [done]
    exact .refl tenantID db

/-- A deletion takes no schedule of another tenant. -/
theorem deleteSchedule_spares (id tenantID : UUID) :
    db.Spares tenantID (deleteSchedule id tenantID db).2 := by
  unfold deleteSchedule
  dsimp only
  split
  · exact .refl tenantID db
  · exact ⟨rfl, .delete (by simp [Schedule.of]), rfl, rfl⟩

end Calls

/-- A call of the limiter counts for its tenant alone. -/
theorem allow_spares {other : UUID} (apart : other ≠ tenantID) (limit : Int) (d : LimiterDraw)
    (counters : Counters) (unix : Int) :
    (allow tenantID limit d counters).2 (limitKey other unix) = counters (limitKey other unix) := by
  -- The names of the counters tell the tenants apart.
  have named : limitKey other unix ≠ limitKey tenantID (d.now / second) := fun same =>
    apart (limitKey_inj same).1
  unfold allow
  split
  · rfl
  · dsimp only
    split
    · rw [Counters.expire_of_ne named, Counters.incr_of_ne named]
    · rw [Counters.incr_of_ne named]

/-- So does a queued job. -/
theorem enqueue_spares {other : UUID} (apart : other ≠ tenantID) (jobID : UUID) (priority : Int16)
    (redis : Redis) (bucket : String) :
    enqueue tenantID jobID priority redis (queueKey bucket other) =
      redis (queueKey bucket other) := by
  have named : queueKey bucket other ≠ queueKey (bucketForPriority priority) tenantID :=
    fun same => apart (queueKey_inj same).2
  rw [enqueue, Redis.lpush, if_neg named]

/-- Everything that is not a tenant's own is as it was. -/
structure ApiState.Spares (tenantID : UUID) (s s' : ApiState) : Prop where
  db : s.db.Spares tenantID s'.db
  tenants : s'.tenants = s.tenants
  lists : ∀ other ≠ tenantID, ∀ bucket,
    s'.redis (queueKey bucket other) = s.redis (queueKey bucket other)
  counters : ∀ other ≠ tenantID, ∀ unix,
    s'.counters (limitKey other unix) = s.counters (limitKey other unix)

namespace ApiState.Spares

variable {s s' s'' : ApiState}

/-- A request that does nothing spares all. -/
theorem refl (tenantID : UUID) (s : ApiState) : s.Spares tenantID s :=
  ⟨.refl tenantID s.db, rfl, fun _ _ _ => rfl, fun _ _ _ => rfl⟩

/-- Two calls spare what each of them spares. -/
theorem trans (first : s.Spares tenantID s') (next : s'.Spares tenantID s'') :
    s.Spares tenantID s'' where
  db := ⟨next.db.jobs.trans first.db.jobs, next.db.schedules.trans first.db.schedules,
    next.db.jobRuns.trans first.db.jobRuns, next.db.deadLetter.trans first.db.deadLetter⟩
  tenants := next.tenants.trans first.tenants
  lists other apart bucket := (next.lists other apart bucket).trans (first.lists other apart bucket)
  counters other apart unix :=
    (next.counters other apart unix).trans (first.counters other apart unix)

/-- A call to the database that spares others. -/
theorem of_db {db : Db} (spares : s.db.Spares tenantID db) :
    s.Spares tenantID { s with db } :=
  ⟨spares, rfl, fun _ _ _ => rfl, fun _ _ _ => rfl⟩

/-- A tenant that queues a job pushes to a list of its own. -/
theorem enqueue (s : ApiState) (jobID : UUID) (priority : Int16) (d : Draw) :
    s.Spares tenantID (s.enqueue tenantID jobID priority d) := by
  unfold ApiState.enqueue
  split
  · exact .refl tenantID s
  · exact ⟨.refl tenantID s.db, rfl, fun other apart => enqueue_spares apart jobID priority s.redis,
      fun _ _ _ => rfl⟩

end ApiState.Spares

/-- The job that a submission has in hand is the tenant's own. -/
def Submission.Of (tenantID : UUID) : Submission → Prop
  | inserting _ j | enqueueing j => j.tenantID = tenantID
  | fetching _ | answered _ => True

section Handlers

variable (env : ApiEnv) (t : Tenant) (d : Draw) (s : ApiState)

/-- The checks of a submission spare the others, and leave the tenant its own job in hand. -/
theorem start_spares (body : Option SubmitJobRequest) :
    (Submission.start t body d s).1.Of t.id ∧ s.Spares t.id (Submission.start t body d s).2 := by
  -- The checks write nothing but the counter of the rate limit.
  have counted : s.Spares t.id
      { s with counters := (allow t.id t.rateLimit d.limiter s.counters).2 } :=
    ⟨.refl t.id s.db, rfl, fun _ _ _ => rfl, fun other apart unix =>
      allow_spares apart t.rateLimit d.limiter s.counters unix⟩
  unfold Submission.start
  cases body with
  | none => exact ⟨trivial, .refl t.id s⟩
  | some req =>
    dsimp only
    split
    · exact ⟨trivial, .refl t.id s⟩
    · split
      · exact ⟨trivial, .refl t.id s⟩
      · split
        · exact ⟨trivial, counted⟩
        · exact ⟨rfl, counted⟩

/-- So does every call of a submission. -/
theorem step_spares {submission : Submission} (own : submission.Of t.id) :
    (submission.step t d s).1.Of t.id ∧ s.Spares t.id (submission.step t d s).2 := by
  cases submission with
  | inserting req j =>
    have stores := insertJob_spares s.db own
    rcases step_inserting t d s req j with
      ⟨jobs, -, inserted, done⟩ | ⟨key, -, done⟩ | ⟨status, message, done⟩
    · rw [inserted] at stores
      rw [done]
      refine ⟨?_, .of_db stores⟩
      dsimp only
      split
      · exact own
      · trivial
    · rw [done]
      exact ⟨trivial, .refl t.id s⟩
    · rw [done]
      exact ⟨trivial, .refl t.id s⟩
  | fetching key =>
    rcases step_fetching t d s key with ⟨existing, -, -, done⟩ | ⟨status, message, done⟩
    · rw [done]
      exact ⟨trivial, .refl t.id s⟩
    · rw [done]
      exact ⟨trivial, .refl t.id s⟩
  | enqueueing j =>
    have mine : j.tenantID = t.id := own
    refine ⟨trivial, ?_⟩
    simp only [Submission.step, mine]
    exact .enqueue s j.id j.priority d
  | answered response => exact ⟨trivial, .refl t.id s⟩

/-- The whole submission spares the others. -/
theorem handleSubmitJob_spares (body : Option SubmitJobRequest) :
    s.Spares t.id (handleSubmitJob t body d s).2 := by
  -- A submission takes two steps at most after its checks.
  obtain ⟨own, started⟩ := start_spares t d s body
  obtain ⟨own', next⟩ := step_spares t d _ own
  exact (started.trans next).trans (step_spares t d _ own').2

/-- A cancellation spares the others, whatever identifier it names. -/
theorem handleCancelJob_spares (id : String) : s.Spares t.id (handleCancelJob t id s).2 := by
  unfold handleCancelJob
  cases UUID.parse id with
  | none => exact .refl t.id s
  | some id =>
    have spares := cancelJob_spares s.db id t.id
    dsimp only
    generalize cancelJob id t.id s.db = result at spares ⊢
    obtain ⟨e | _, db⟩ := result
    · cases e <;> exact .refl t.id s
    · exact .of_db spares

/-- A replay spares the others, although it queues the job by its identifier alone. -/
theorem handleReplayJob_spares (id : String) : s.Spares t.id (handleReplayJob t id d s).2 := by
  unfold handleReplayJob
  cases UUID.parse id with
  | none => exact .refl t.id s
  | some id =>
    have spares := replayJob_spares s.db id t.id
    dsimp only
    generalize replayJob id t.id s.db = result at spares ⊢
    obtain ⟨e | j, db⟩ := result
    · cases e <;> exact .of_db spares
    · -- The job is queued for the tenant that asks, whatever the read has found.
      exact (ApiState.Spares.of_db spares).trans (.enqueue _ id j.priority d)

/-- A creation spares the others, whether it is refused or not. -/
theorem handleCreateSchedule_spares (body : Option CreateScheduleRequest) :
    s.Spares t.id (handleCreateSchedule env t body d s).2 := by
  unfold handleCreateSchedule
  rcases checkSchedule_spec env t body d.id d.now with
    ⟨message, refused⟩ | ⟨req, jobTemplate, loc, next, -, -, accepted⟩
  · rw [refused]
    exact .refl t.id s
  · rw [accepted]
    have own : (createdSchedule t.id req jobTemplate d.id (next loc d.now)).tenantID = t.id := rfl
    have spares := insertSchedule_spares s.db own
    dsimp only
    generalize insertSchedule _ s.db = result at spares ⊢
    obtain ⟨e | _, db⟩ := result
    · cases e <;> exact .refl t.id s
    · exact .of_db spares

/-- A deletion spares the others, whatever identifier it names. -/
theorem handleDeleteSchedule_spares (id : String) :
    s.Spares t.id (handleDeleteSchedule t id s).2 := by
  unfold handleDeleteSchedule
  cases UUID.parse id with
  | none => exact .refl t.id s
  | some id =>
    have spares := deleteSchedule_spares s.db id t.id
    dsimp only
    generalize deleteSchedule id t.id s.db = result at spares ⊢
    obtain ⟨e | _, db⟩ := result
    · cases e <;> exact .refl t.id s
    · exact .of_db spares

/-- Whatever a tenant asks for, the others are spared. -/
theorem Endpoint.after_spares (e : Endpoint) : s.Spares t.id (e.after env t d s) := by
  cases e with
  | submitJob body => exact handleSubmitJob_spares t d s body
  | cancelJob id => exact handleCancelJob_spares t s id
  | replayJob id => exact handleReplayJob_spares t d s id
  | createSchedule body => exact handleCreateSchedule_spares env t d s body
  | deleteSchedule id => exact handleDeleteSchedule_spares t s id
  | listJobs _ | getJob _ | listSchedules | getSchedule _ => exact .refl t.id s

end Handlers

section Requests

variable {env : ApiEnv} {t : Tenant} {s s' : ApiState}

/-- A request with a tenant's key spares the others, whether it is admitted or not. -/
theorem serves_spares (stored : t ∈ s.tenants.rows) {request : Request} {response : Response}
    (own : extractBearerToken request.authorization = t.apiKey)
    (serves : Serves env s request response s') : s.Spares t.id s' := by
  unfold Serves at serves
  rcases authenticate_own stored own with ⟨-, passed⟩ | ⟨-, refused⟩
  · rw [passed] at serves
    rw [serves.after_eq]
    exact request.endpoint.after_spares env t request.draw s
  · -- A refusal changes nothing at all.
    rw [refused] at serves
    rw [serves.2]
    exact .refl t.id s

/-- One request after the other, with whatever answers. -/
def Answers (env : ApiEnv) (s : ApiState) (request : Request) (s' : ApiState) : Prop :=
  ∃ response, Serves env s request response s'

/-- No sequence of a tenant's requests changes anything that belongs to another tenant. -/
theorem tenant_integrity (stored : t ∈ s.tenants.rows) {past : List (Step ApiState Request)}
    (run : Run (Answers env) s past s')
    (own : ∀ e ∈ past, extractBearerToken e.label.authorization = t.apiKey) :
    s.Spares t.id s' := by
  refine run.along (fun s' => s.Spares t.id s') (.refl t.id s) ?_
  intro mid request next listed spares serves
  obtain ⟨response, serves⟩ := serves
  -- The tenants stay, so the key still belongs to the same one.
  have still : t ∈ mid.tenants.rows := by
    rw [spares.tenants]
    exact stored
  exact spares.trans (serves_spares still (own _ listed) serves)

/-- Any requests of an admitted tenant can be carried out. -/
theorem exists_run (collates : Collates env) (admitted : t.admitted = true)
    (stored : t ∈ s.tenants.rows) {requests : List Request}
    (own : ∀ request ∈ requests, extractBearerToken request.authorization = t.apiKey) :
    ∃ past s', Run (Answers env) s past s' ∧ past.map Step.label = requests ∧
      t ∈ s'.tenants.rows := by
  -- The induction is on the last request, since runs grow at their end.
  induction requests using List.reverseRecOn with
  | nil => exact ⟨[], s, .nil, rfl, stored⟩
  | append_singleton requests last ih =>
    obtain ⟨past, mid, run, labels, there⟩ := ih fun request listed =>
      own request (List.mem_append_left _ listed)
    obtain ⟨response, answered⟩ :=
      last.endpoint.exists_answer env t last.draw mid collates.1 collates.2
    have serves := (serves_admitted admitted there (own last (by simp)) response).mpr answered
    refine ⟨_, _, run.snoc ⟨response, serves⟩, by rw [List.map_append, labels]; rfl, ?_⟩
    rw [(last.endpoint.after_spares env t last.draw mid).tenants]
    exact there

end Requests

/-- An attempt on another tenant's schedule, and a submission. -/
def meddling : List Request :=
  [⟨"Bearer dev-token", .deleteSchedule "00000000-0000-0000-0000-000000000005", .prompt 8 0⟩,
    ⟨"Bearer dev-token", .submitJob (some (.bare "mail" (.object .nil))), .prompt 9 0⟩]

theorem tenant_integrity_meddling : ∃ past s', Run (Answers .everyMinute) withBackup past s' ∧
    past.map Step.label = meddling ∧ withBackup.Spares devTenant.id s' := by
  have stored : devTenant ∈ withBackup.tenants.rows := List.mem_singleton.mpr rfl
  have own : ∀ request ∈ meddling, extractBearerToken request.authorization = devTenant.apiKey := by
    simp [meddling, devTenant_bearer]
  obtain ⟨past, s', run, labels, -⟩ := exists_run everyMinute_collates (by decide) stored own
  refine ⟨past, s', run, labels, tenant_integrity stored run fun e listed => ?_⟩
  exact own e.label (labels ▸ List.mem_map_of_mem listed)

end Sluice
