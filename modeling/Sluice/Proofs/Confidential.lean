import Sluice.Api.Server
import Sluice.Proofs.NextRun
import Sluice.Proofs.Storage.Rows
import Sluice.Proofs.Storage.Schedules
import Sluice.Proofs.Submissions

/-! What the answers to a tenant's requests can tell about other tenants. -/

namespace Sluice

open Relational

variable {tenantID : UUID} {db db' : Db}

/-- Whether a job is the tenant's own. -/
def Job.of (tenantID : UUID) (j : Job) : Bool := j.tenantID == tenantID

/-- Whether a schedule is the tenant's own. -/
def Schedule.of (tenantID : UUID) (sched : Schedule) : Bool := sched.tenantID == tenantID

/-- Two databases with the same jobs and schedules of a tenant. -/
structure Db.Agree (tenantID : UUID) (db db' : Db) : Prop where
  jobs : db.jobs.Agree (Job.of tenantID) db'.jobs
  schedules : db.schedules.Agree (Schedule.of tenantID) db'.schedules

/-- A call gives the same result on both databases and keeps them in agreement. -/
def SameCall {α : Type} (tenantID : UUID) (call : Db → α × Db) (db db' : Db) : Prop :=
  (call db).1 = (call db').1 ∧ Db.Agree tenantID (call db).2 (call db').2

/-- The two results of a call, with what they have in common. -/
theorem SameCall.results {α : Type} {call : Db → α × Db} (same : SameCall tenantID call db db') :
    ∃ result left right, call db = (result, left) ∧ call db' = (result, right) ∧
      Db.Agree tenantID left right :=
  ⟨(call db).1, (call db).2, (call db').2, rfl, Prod.ext same.1.symm rfl, same.2⟩

/-- A job is cancelled for its own tenant. -/
theorem cancellable_own {id : UUID} (j : Job) (hit : cancellable id tenantID j = true) :
    j.of tenantID = true := by
  simp only [cancellable, Bool.and_eq_true] at hit
  exact hit.1.2

/-- So is a job that is replayed. -/
theorem replayable_own {id : UUID} (j : Job) (hit : replayable id tenantID j = true) :
    j.of tenantID = true := by
  simp only [replayable, Bool.and_eq_true] at hit
  exact hit.1.2

section Calls

variable (agree : Db.Agree tenantID db db')

include agree

/-- A tenant finds the same job. -/
theorem getJobForTenant_agree (id : UUID) :
    getJobForTenant id tenantID db.jobs = getJobForTenant id tenantID db'.jobs := by
  -- The query names the tenant, and the identifier leaves one row at most.
  unfold getJobForTenant
  rw [agree.jobs.select?_eq (by simp [Job.of])]
  intro t row stored row' stored' hit hit'
  simp only [Bool.and_eq_true, beq_iff_eq] at hit hit'
  exact Table.eq_of_key stored stored' (hit.1.trans hit'.1.symm)

/-- A key finds the same job of the tenant. -/
theorem getJobByIdempotencyKey_agree (key : String) :
    getJobByIdempotencyKey tenantID key db.jobs = getJobByIdempotencyKey tenantID key db'.jobs := by
  unfold getJobByIdempotencyKey
  rw [agree.jobs.select?_eq (by simp +contextual [Job.of])]
  -- The index leaves one job to a tenant and a key.
  intro t row stored row' stored' hit hit'
  simp only [Bool.and_eq_true, beq_iff_eq] at hit hit'
  refine Table.eq_of_index (u := (tenantID, key)) stored stored' ?_ ?_ <;>
    simp [Job.idempotency, hit, hit']

/-- A cancellation goes the same way. -/
theorem cancelJob_agree (id : UUID) : SameCall tenantID (cancelJob id tenantID) db db' := by
  -- The statement reaches rows of the tenant alone, which both tables have.
  unfold SameCall cancelJob
  rw [agree.jobs.affected_eq cancellable_own]
  split
  · exact ⟨rfl, agree⟩
  · exact ⟨rfl, agree.jobs.delete, agree.schedules⟩

/-- So does a replay, with the job that it answers. -/
theorem replayJob_agree (id : UUID) : SameCall tenantID (replayJob id tenantID) db db' := by
  unfold SameCall replayJob
  rw [agree.jobs.affected_eq replayable_own]
  split
  · exact ⟨rfl, agree⟩
  · rename_i some_hit
    -- The job that is read afterwards is the one that was reset, which both tables have.
    have positive : 0 < db'.jobs.affected (replayable id tenantID) :=
      Nat.pos_of_ne_zero (by simpa using some_hit)
    obtain ⟨row, stored', hit⟩ := List.countP_pos_iff.mp positive
    have named : row.id = id := by
      simp only [replayable, Bool.and_eq_true, beq_iff_eq] at hit
      exact hit.1.1
    have found' : db'.jobs.find? id = some row := named ▸ Table.mem_rows_iff.mp stored'
    have found : db.jobs.find? id = some row :=
      named ▸ Table.mem_rows_iff.mp ((agree.jobs row (replayable_own row hit)).mpr stored')
    simp only [Table.find?_update, found, found', Option.map_some]
    exact ⟨trivial, agree.jobs.update replayable_own replayRow fun _ => ⟨rfl, rfl⟩,
      agree.schedules⟩

/-- So does an insertion under a new identifier. -/
theorem insertJob_agree {j : Job} (own : j.tenantID = tenantID) (fresh : db.jobs.find? j.id = none)
    (fresh' : db'.jobs.find? j.id = none) : SameCall tenantID (insertJob j) db db' := by
  -- A row that is in the way has the same key, and so the same tenant.
  have confined : ∀ (row : Job) u, j.inserted.idempotency = some u → row.idempotency = some u →
      row.of tenantID = true := by
    intro row u here there
    obtain ⟨key, -, rfl⟩ := Option.map_eq_some_iff.mp here
    obtain ⟨key', -, same⟩ := Option.map_eq_some_iff.mp there
    simpa [Job.of, own, Job.inserted] using (Prod.mk.inj same).1
  unfold SameCall insertJob
  split
  · exact ⟨rfl, agree⟩
  · split
    · exact ⟨rfl, agree⟩
    · rcases agree.jobs.insert? j.inserted fresh fresh' confined with
        ⟨clash, clash'⟩ | ⟨jobs, jobs', stored, stored', kept⟩
      · simp only [clash, clash']
        exact ⟨trivial, agree⟩
      · simp only [stored, stored']
        exact ⟨trivial, kept, agree.schedules⟩

/-- So does the creation of a schedule. -/
theorem insertSchedule_agree (sched : Schedule) (own : sched.tenantID = tenantID)
    (fresh : db.schedules.find? sched.id = none) (fresh' : db'.schedules.find? sched.id = none) :
    SameCall tenantID (insertSchedule sched) db db' := by
  -- Names are unique for each tenant, so only the tenant's own schedules are in the way.
  have confined : ∀ (row : Schedule) u, sched.inserted.named = some u →
      row.named = some u → row.of tenantID = true := by
    rintro row u here there
    cases here
    simpa [Schedule.named, Schedule.of, Schedule.inserted, own] using
      (Prod.mk.inj (Option.some.inj there)).1
  unfold SameCall insertSchedule
  rcases agree.schedules.insert? sched.inserted fresh fresh' confined with
    ⟨clash, clash'⟩ | ⟨schedules, schedules', stored, stored', kept⟩
  · simp only [clash, clash']
    exact ⟨trivial, agree⟩
  · simp only [stored, stored']
    exact ⟨trivial, agree.jobs, kept⟩

/-- So does its deletion. -/
theorem deleteSchedule_agree (id : UUID) :
    SameCall tenantID (deleteSchedule id tenantID) db db' := by
  have confined : ∀ sched : Schedule, (sched.id == id && sched.tenantID == tenantID) = true →
      sched.of tenantID = true := by
    simp [Schedule.of]
  unfold SameCall deleteSchedule
  simp only [agree.schedules.affected_eq confined]
  split
  · exact ⟨rfl, agree⟩
  · exact ⟨rfl, agree.jobs, agree.schedules.delete⟩

end Calls

/-- The same counters of a tenant. -/
def Counters.Agree (tenantID : UUID) (counters counters' : Counters) : Prop :=
  ∀ unix, counters (limitKey tenantID unix) = counters' (limitKey tenantID unix)

namespace Counters.Agree

variable {counters counters' : Counters} (agree : Counters.Agree tenantID counters counters')

include agree

/-- Replacing a counter in the same way keeps the agreement. -/
theorem set (key : String) (counter : Option Counter) :
    Counters.Agree tenantID (counters.set key counter) (counters'.set key counter) := by
  intro unix
  unfold Counters.set
  split
  · rfl
  · exact agree unix

/-- The tenant has the same counters that have not expired. -/
theorem live (unix : Int) (now : Time) : counters.live (limitKey tenantID unix) now =
    counters'.live (limitKey tenantID unix) now := by
  rw [Counters.live, agree, ← Counters.live]

/-- Counting up gives the same number. -/
theorem incr (unix : Int) (now : Time) :
    (counters.incr (limitKey tenantID unix) now).1 =
        (counters'.incr (limitKey tenantID unix) now).1 ∧
      Counters.Agree tenantID (counters.incr (limitKey tenantID unix) now).2
        (counters'.incr (limitKey tenantID unix) now).2 := by
  unfold Counters.incr
  rw [agree.live]
  exact ⟨rfl, agree.set _ _⟩

/-- An expiry is set on the same counters. -/
theorem expire (unix : Int) (now ttl : Time) :
    Counters.Agree tenantID (counters.expire (limitKey tenantID unix) now ttl)
      (counters'.expire (limitKey tenantID unix) now ttl) := by
  unfold Counters.expire
  rw [agree.live]
  exact agree.set _ _

/-- The limiter answers by the tenant's own counters. -/
theorem allow (limit : Int) (d : LimiterDraw) :
    (allow tenantID limit d counters).1 = (allow tenantID limit d counters').1 ∧
      Counters.Agree tenantID (Sluice.allow tenantID limit d counters).2
        (Sluice.allow tenantID limit d counters').2 := by
  -- The number that the counter reaches is the same, and with it the answer.
  have counted := agree.incr (d.now / second) d.incrAt
  unfold Sluice.allow
  dsimp only
  generalize counters.incr _ _ = left at counted
  generalize counters'.incr _ _ = right at counted
  obtain ⟨count, counters⟩ := left
  obtain ⟨count', counters'⟩ := right
  obtain ⟨same, kept⟩ := counted
  dsimp only at same
  subst same
  split
  · exact ⟨rfl, agree⟩
  · refine ⟨rfl, ?_⟩
    split
    · exact Agree.expire kept _ _ _
    · exact kept

end Counters.Agree

/-- Two states with the same rows and counters of a tenant. -/
structure ApiState.Agree (t : Tenant) (s s' : ApiState) : Prop where
  tenant : t ∈ s.tenants.rows ∧ t ∈ s'.tenants.rows
  db : Db.Agree t.id s.db s'.db
  counters : Counters.Agree t.id s.counters s'.counters

/-- Agreement is symmetric. -/
theorem ApiState.Agree.symm {t : Tenant} {s s' : ApiState} (agree : s.Agree t s') :
    s'.Agree t s where
  tenant := agree.tenant.symm
  db := ⟨agree.db.jobs.symm, agree.db.schedules.symm⟩
  counters unix := (agree.counters unix).symm

/-- No row has the identifier yet. -/
def ApiState.Unused (id : UUID) (s : ApiState) : Prop :=
  s.db.jobs.find? id = none ∧ s.db.schedules.find? id = none

/-- A handler gives the same result in both states and keeps them in agreement. -/
def SameAnswer {α : Type} (t : Tenant) (handle : ApiState → α × ApiState) (s s' : ApiState) :
    Prop :=
  (handle s).1 = (handle s').1 ∧ (handle s).2.Agree t (handle s').2

section Handlers

variable {t : Tenant} {s s' : ApiState} (agree : s.Agree t s')

include agree

/-- Queueing a job fails or succeeds alike. -/
theorem ApiState.Agree.enqueue (tenantID jobID : UUID) (priority : Int16) (d : Draw) :
    (s.enqueue tenantID jobID priority d).Agree t (s'.enqueue tenantID jobID priority d) := by
  unfold ApiState.enqueue
  split
  · exact agree
  · exact ⟨agree.tenant, agree.db, agree.counters⟩

/-- The checks of a submission come out the same. -/
theorem start_agree (body : Option SubmitJobRequest) (d : Draw) :
    SameAnswer t (Submission.start t body d) s s' := by
  -- The checks read nothing stored but the counters of the rate limit.
  have limited := agree.counters.allow t.rateLimit d.limiter
  unfold SameAnswer Submission.start
  generalize allow t.id t.rateLimit d.limiter s.counters = left at limited
  generalize allow t.id t.rateLimit d.limiter s'.counters = right at limited
  obtain ⟨allowed, counters⟩ := left
  obtain ⟨allowed', counters'⟩ := right
  obtain ⟨same, kept⟩ := limited
  dsimp only at same
  subst same
  cases body with
  | none => exact ⟨rfl, agree⟩
  | some req =>
    dsimp only
    split
    · exact ⟨rfl, agree⟩
    · split
      · exact ⟨rfl, agree⟩
      · split
        · exact ⟨rfl, agree.tenant, agree.db, kept⟩
        · exact ⟨rfl, agree.tenant, agree.db, kept⟩

/-- The next statement of a submission, whose job is the tenant's own and new to both states. -/
theorem step_agree (d : Draw) (submission : Submission)
    (fresh : ∀ req j, submission = .inserting req j →
      j.tenantID = t.id ∧ s.db.jobs.find? j.id = none ∧ s'.db.jobs.find? j.id = none) :
    SameAnswer t (fun s => submission.step t d s) s s' := by
  unfold SameAnswer
  cases submission with
  | inserting req j =>
    obtain ⟨own, unused, unused'⟩ := fresh req j rfl
    obtain ⟨result, left, right, called, called', kept⟩ :=
      (insertJob_agree agree.db own unused unused').results
    -- A failed insertion has left its database alone.
    simp only [Submission.step, called, called']
    cases result with
    | ok done => exact ⟨rfl, agree.tenant, kept, agree.counters⟩
    | error e =>
      cases e with
      | duplicate => cases req.idempotencyKey <;> exact ⟨rfl, agree⟩
      | notFound => exact ⟨rfl, agree⟩
      | outOfRange => exact ⟨rfl, agree⟩
      | notNull => exact ⟨rfl, agree⟩
  | fetching key =>
    simp only [Submission.step, getJobByIdempotencyKey_agree agree.db key]
    split <;> exact ⟨rfl, agree⟩
  | enqueueing j => exact ⟨rfl, agree.enqueue _ _ _ d⟩
  | answered response => exact ⟨rfl, agree⟩

/-- A whole submission is answered the same. -/
theorem handleSubmitJob_agree (body : Option SubmitJobRequest) {d : Draw} (unused : s.Unused d.id)
    (unused' : s'.Unused d.id) : SameAnswer t (handleSubmitJob t body d) s s' := by
  have started := start_agree agree body d
  obtain ⟨counters, counted, outcome⟩ := start_spec t d s body
  obtain ⟨counters', counted', -⟩ := start_spec t d s' body
  unfold SameAnswer at started
  unfold SameAnswer handleSubmitJob
  generalize Submission.start t body d s = left at started counted outcome
  generalize Submission.start t body d s' = right at started counted'
  obtain ⟨submission, s₁⟩ := left
  obtain ⟨submission', s₁'⟩ := right
  obtain ⟨same, agree₁⟩ := started
  dsimp only at same counted counted' outcome agree₁ ⊢
  subst same
  -- Only the first of the two statements can be an insertion, and it is one of the drawn job.
  have fresh : ∀ req j, submission = .inserting req j →
      j.tenantID = t.id ∧ s₁.db.jobs.find? j.id = none ∧ s₁'.db.jobs.find? j.id = none := by
    rintro req j rfl
    rcases outcome with ⟨status, message, refused⟩ | ⟨req', -, accepted⟩
    · cases refused
    · cases accepted
      rw [counted, counted']
      exact ⟨rfl, unused.1, unused'.1⟩
  obtain ⟨next, agree₂⟩ := step_agree agree₁ d submission fresh
  dsimp only at next agree₂
  rw [next]
  refine step_agree agree₂ d _ fun req j back => ?_
  exact absurd (next.trans back) (step_ne_inserting t d s₁ submission req j)

/-- A job that is asked for is answered the same. -/
theorem handleGetJob_agree (id : String) : handleGetJob t id s = handleGetJob t id s' := by
  unfold handleGetJob
  simp only [getJobForTenant_agree agree.db]

/-- So is a page of jobs, whatever the order of ties. -/
theorem handleListJobs_agree (params : ListParams) (response : Response) :
    HandleListJobs t params s response ↔ HandleListJobs t params s' response := by
  unfold HandleListJobs
  split
  · exact Iff.rfl
  · rename_i filter listing
    -- The filter of a listing always names the tenant.
    have named : filter.tenantID = some t.id := by
      unfold ListParams.filter at listing
      dsimp only at listing
      split at listing
      · cases listing
        rfl
      · obtain ⟨state, -, rfl⟩ := Option.map_eq_some_iff.mp listing
        rfl
    refine exists_congr fun jobs => and_congr_left fun _ => Query.answers_congr ?_ jobs
    refine agree.db.jobs.filter_perm fun j hit => ?_
    simp only [listJobs, named, Option.all_some, Bool.and_eq_true, beq_iff_eq] at hit
    simp [Job.of, hit.1]

/-- So are the schedules. -/
theorem handleListSchedules_agree (env : ApiEnv) (response : Response) :
    HandleListSchedules env t s response ↔ HandleListSchedules env t s' response := by
  refine exists_congr fun schedules => and_congr_left fun _ => Query.answers_congr ?_ schedules
  exact agree.db.schedules.filter_perm fun sched hit => hit

/-- So is a cancellation. -/
theorem handleCancelJob_agree (id : String) : SameAnswer t (handleCancelJob t id) s s' := by
  unfold SameAnswer handleCancelJob
  cases UUID.parse id with
  | none => exact ⟨rfl, agree⟩
  | some id =>
    obtain ⟨result, left, right, called, called', kept⟩ := (cancelJob_agree agree.db id).results
    simp only [called, called']
    rcases result with e | _
    · cases e <;> exact ⟨rfl, agree⟩
    · exact ⟨rfl, agree.tenant, kept, agree.counters⟩

/-- So is a replay. -/
theorem handleReplayJob_agree (id : String) (d : Draw) :
    SameAnswer t (handleReplayJob t id d) s s' := by
  unfold SameAnswer handleReplayJob
  cases UUID.parse id with
  | none => exact ⟨rfl, agree⟩
  | some id =>
    obtain ⟨result, left, right, called, called', kept⟩ := (replayJob_agree agree.db id).results
    have agree' : { s with db := left }.Agree t { s' with db := right } :=
      ⟨agree.tenant, kept, agree.counters⟩
    simp only [called, called']
    rcases result with e | j
    · cases e <;> exact ⟨rfl, agree'⟩
    · exact ⟨rfl, agree'.enqueue _ _ _ d⟩

/-- So is the creation of a schedule. -/
theorem handleCreateSchedule_agree (env : ApiEnv) (body : Option CreateScheduleRequest) {d : Draw}
    (unused : s.Unused d.id) (unused' : s'.Unused d.id) :
    SameAnswer t (handleCreateSchedule env t body d) s s' := by
  unfold SameAnswer handleCreateSchedule
  rcases checkSchedule_spec env t body d.id d.now with
    ⟨message, refused⟩ | ⟨req, jobTemplate, loc, next, -, -, accepted⟩
  · simp only [refused]
    exact ⟨trivial, agree⟩
  · obtain ⟨result, left, right, called, called', kept⟩ := (insertSchedule_agree agree.db
      (createdSchedule t.id req jobTemplate d.id (next loc d.now)) rfl unused.2 unused'.2).results
    simp only [accepted, called, called']
    rcases result with e | _
    · cases e <;> exact ⟨rfl, agree⟩
    · exact ⟨rfl, agree.tenant, kept, agree.counters⟩

/-- So is its deletion. -/
theorem handleDeleteSchedule_agree (id : String) :
    SameAnswer t (handleDeleteSchedule t id) s s' := by
  unfold SameAnswer handleDeleteSchedule
  cases UUID.parse id with
  | none => exact ⟨rfl, agree⟩
  | some id =>
    obtain ⟨result, left, right, called, called', kept⟩ :=
      (deleteSchedule_agree agree.db id).results
    simp only [called, called']
    rcases result with e | _
    · cases e <;> exact ⟨rfl, agree⟩
    · exact ⟨rfl, agree.tenant, kept, agree.counters⟩

/-- The answer about a schedule tells what others have stored under its identifier. -/
theorem handleGetSchedule_agree {id : String} {k : UUID} (named : UUID.parse id = some k) :
    handleGetSchedule id s = handleGetSchedule id s' ↔
      (s.db.schedules.find? k).filter (fun sched => !sched.of t.id) =
        (s'.db.schedules.find? k).filter fun sched => !sched.of t.id := by
  -- The tenant's own schedule would be the same in both, so the difference is one of others.
  rw [← agree.db.schedules.find?_eq_iff k]
  simp only [handleGetSchedule, named, getSchedule]
  cases s.db.schedules.find? k <;> cases s'.db.schedules.find? k <;> simp [writeError]

end Handlers

/-- What a request leaves behind. -/
def Endpoint.after (env : ApiEnv) (t : Tenant) (d : Draw) (s : ApiState) : Endpoint → ApiState
  | submitJob body => (handleSubmitJob t body d s).2
  | cancelJob id => (handleCancelJob t id s).2
  | replayJob id => (handleReplayJob t id d s).2
  | createSchedule body => (handleCreateSchedule env t body d s).2
  | deleteSchedule id => (handleDeleteSchedule t id s).2
  | listJobs _ | getJob _ | listSchedules | getSchedule _ => s

/-- The schedule that a request names without naming the tenant. -/
def Endpoint.asks : Endpoint → Option UUID
  | getSchedule id => UUID.parse id
  | _ => none

section Endpoints

variable {env : ApiEnv} {t : Tenant} {d : Draw} {s s' : ApiState} {response : Response}
  {e : Endpoint}

/-- A request leaves one state behind, whatever it is answered. -/
theorem Endpoint.Serves.after_eq (serves : e.Serves env t d s response s') :
    s' = e.after env t d s := by
  cases e with
  | cancelJob id | replayJob id | createSchedule body | deleteSchedule id =>
    exact congrArg Prod.snd serves
  | _ => exact serves.2

variable (agree : s.Agree t s') (unused : s.Unused d.id) (unused' : s'.Unused d.id)

include agree unused unused'

/-- A request keeps two states in agreement. -/
theorem Endpoint.after_agree : (e.after env t d s).Agree t (e.after env t d s') := by
  cases e with
  | submitJob body => exact (handleSubmitJob_agree agree body unused unused').2
  | cancelJob id => exact (handleCancelJob_agree agree id).2
  | replayJob id => exact (handleReplayJob_agree agree id d).2
  | createSchedule body => exact (handleCreateSchedule_agree agree env body unused unused').2
  | deleteSchedule id => exact (handleDeleteSchedule_agree agree id).2
  | _ => exact agree

/-- A request is answered in the same ways in two states, up to the schedules of others. -/
theorem Endpoint.answers_iff (same : ∀ k, e.asks = some k →
      (s.db.schedules.find? k).filter (fun sched => !sched.of t.id) =
        (s'.db.schedules.find? k).filter fun sched => !sched.of t.id) :
    e.Serves env t d s response (e.after env t d s) ↔
      e.Serves env t d s' response (e.after env t d s') := by
  cases e with
  | submitJob body =>
    simp only [Endpoint.Serves, Endpoint.after, and_true]
    rw [(handleSubmitJob_agree agree body unused unused').1]
  | listJobs params =>
    simp only [Endpoint.Serves, Endpoint.after, and_true, handleListJobs_agree agree]
  | getJob id => simp only [Endpoint.Serves, Endpoint.after, and_true, handleGetJob_agree agree]
  | cancelJob id =>
    simp only [Endpoint.Serves, Endpoint.after, Prod.ext_iff, and_true]
    rw [(handleCancelJob_agree agree id).1]
  | replayJob id =>
    simp only [Endpoint.Serves, Endpoint.after, Prod.ext_iff, and_true]
    rw [(handleReplayJob_agree agree id d).1]
  | createSchedule body =>
    simp only [Endpoint.Serves, Endpoint.after, Prod.ext_iff, and_true]
    rw [(handleCreateSchedule_agree agree env body unused unused').1]
  | listSchedules =>
    simp only [Endpoint.Serves, Endpoint.after, and_true, handleListSchedules_agree agree]
  | getSchedule id =>
    simp only [Endpoint.Serves, Endpoint.after, and_true]
    cases named : UUID.parse id with
    | none => simp only [handleGetSchedule, named]
    | some k => rw [(handleGetSchedule_agree agree named).mpr (same k named)]
  | deleteSchedule id =>
    simp only [Endpoint.Serves, Endpoint.after, Prod.ext_iff, and_true]
    rw [(handleDeleteSchedule_agree agree id).1]

end Endpoints

/-- The calls that a tenant's request can lead to, with the identifier that it has drawn. -/
def Op.Own (tenantID id : UUID) : Op → Prop
  | insertJob j => j.id = id
  | insertSchedule sched => sched.id = id ∧ sched.tenantID = tenantID
  | cancelJob _ owner | replayJob _ owner | deleteSchedule _ owner => owner = tenantID
  | _ => False

/-- The schedule of another tenant that is stored under an identifier. -/
def foreign (t : Tenant) (s : ApiState) (k : UUID) : Option Schedule :=
  (s.db.schedules.find? k).filter fun sched => !sched.of t.id

section Frames

variable {op : Op} {id k : UUID} (own : op.Own tenantID id)

include own

/-- Only the drawn identifier comes into use. -/
theorem Op.Own.jobs_unused (other : k ≠ id) (unused : db.jobs.find? k = none) :
    (op.apply db).jobs.find? k = none := by
  -- Rows appear by insertions alone, and the tenant's insertion has the drawn identifier.
  have step := apply_row op db k
  rw [unused] at step
  generalize (op.apply db).jobs.find? k = row at step
  cases step with
  | keep => rfl
  | insert named => exact absurd (named.symm.trans own) other

/-- A call for another identifier leaves this one unused. -/
theorem Op.Own.schedules_unused (other : k ≠ id) (unused : db.schedules.find? k = none) :
    (op.apply db).schedules.find? k = none := by
  have step := apply_schedule op db k
  rw [unused] at step
  generalize (op.apply db).schedules.find? k = row at step
  cases step with
  | keep => rfl
  | insert named => exact absurd (named.symm.trans own.1) other

/-- The schedules of others stay as they are. -/
theorem Op.Own.schedules_foreign (k : UUID) :
    ((op.apply db).schedules.find? k).filter (fun sched => !sched.of tenantID) =
      (db.schedules.find? k).filter fun sched => !sched.of tenantID := by
  have step := apply_schedule op db k
  generalize stored : db.schedules.find? k = old at step ⊢
  generalize after : (op.apply db).schedules.find? k = new at step ⊢
  cases step with
  | keep => rfl
  | insert named => simp [Schedule.of, Schedule.inserted, own.2]
  | @delete row owner =>
    -- A schedule that is deleted is the tenant's own.
    have mine : row.of tenantID = true := by
      simp only [Op.apply, Sluice.deleteSchedule] at after
      split at after
      · rw [stored] at after
        cases after
      · simp only [Table.find?_delete, stored, Option.filter_some] at after
        have owned : owner = tenantID := own
        simp_all [Schedule.of]
    rw [Option.filter_some, mine]
    rfl
  | update => exact own.elim

end Frames

section Effects

variable (env : ApiEnv) (t : Tenant) (d : Draw) (s : ApiState) (e : Endpoint)

/-- A request makes one call of the tenant's own at most. -/
theorem Endpoint.after_db : (e.after env t d s).tenants = s.tenants ∧
    ((e.after env t d s).db = s.db ∨
      ∃ op, Op.Own t.id d.id op ∧ (e.after env t d s).db = op.apply s.db) := by
  -- A request that fails its checks makes no call, and a call that fails may count as none.
  cases e with
  | submitJob body =>
    obtain ⟨-, tenants, same | ⟨req, -, stored⟩⟩ := handleSubmitJob_spec t d s body
    · exact ⟨tenants, .inl same⟩
    · exact ⟨tenants, .inr ⟨.insertJob (submittedJob t.id req d.id d.now), rfl, stored⟩⟩
  | cancelJob id =>
    simp only [Endpoint.after, handleCancelJob]
    cases UUID.parse id with
    | none => exact ⟨rfl, .inl rfl⟩
    | some id =>
      rcases called : Sluice.cancelJob id t.id s.db with ⟨e | _, db⟩
      · cases e <;> simp only [called] <;> exact ⟨trivial, .inl trivial⟩
      · simp only [called]
        exact ⟨trivial, .inr ⟨.cancelJob id t.id, rfl, by simp [Op.apply, called]⟩⟩
  | replayJob id =>
    simp only [Endpoint.after, handleReplayJob]
    cases UUID.parse id with
    | none => exact ⟨rfl, .inl rfl⟩
    | some id =>
      have own : Op.Own t.id d.id (.replayJob id t.id) := rfl
      rcases called : Sluice.replayJob id t.id s.db with ⟨e | j, db⟩
      · cases e <;> simp only [called] <;>
          exact ⟨trivial, .inr ⟨_, own, by simp [Op.apply, called]⟩⟩
      · simp only [called, ApiState.enqueue]
        split <;> exact ⟨rfl, .inr ⟨_, own, by simp [Op.apply, called]⟩⟩
  | createSchedule body =>
    simp only [Endpoint.after, handleCreateSchedule]
    rcases checkSchedule_spec env t body d.id d.now with
      ⟨message, refused⟩ | ⟨req, jobTemplate, loc, next, -, -, accepted⟩
    · simp only [refused]
      exact ⟨trivial, .inl trivial⟩
    · rw [accepted]
      have own : Op.Own t.id d.id
        (.insertSchedule (createdSchedule t.id req jobTemplate d.id (next loc d.now))) := ⟨rfl, rfl⟩
      rcases called : insertSchedule (createdSchedule t.id req jobTemplate d.id (next loc d.now))
        s.db with ⟨e | _, db⟩
      · cases e <;> simp only [called] <;> exact ⟨trivial, .inl trivial⟩
      · simp only [called]
        exact ⟨trivial, .inr ⟨_, own, by simp [Op.apply, called]⟩⟩
  | deleteSchedule id =>
    simp only [Endpoint.after, handleDeleteSchedule]
    cases UUID.parse id with
    | none => exact ⟨rfl, .inl rfl⟩
    | some id =>
      rcases called : Sluice.deleteSchedule id t.id s.db with ⟨e | _, db⟩
      · cases e <;> simp only [called] <;> exact ⟨trivial, .inl trivial⟩
      · simp only [called]
        exact ⟨trivial, .inr ⟨.deleteSchedule id t.id, rfl, by simp [Op.apply, called]⟩⟩
  | _ => exact ⟨rfl, .inl rfl⟩

/-- Every request is answered, if names can be put in order. -/
theorem Endpoint.exists_answer (total : ∀ a b, env.collation a b = true ∨ env.collation b a = true)
    (trans : ∀ a b c, env.collation a b = true → env.collation b c = true →
      env.collation a c = true) : ∃ response, e.Serves env t d s response (e.after env t d s) := by
  cases e with
  | submitJob body =>
    obtain ⟨⟨response, answered⟩, -⟩ := handleSubmitJob_spec t d s body
    exact ⟨response, answered, rfl⟩
  | listJobs params =>
    simp only [Endpoint.Serves, Endpoint.after, and_true, HandleListJobs]
    split
    · exact ⟨_, rfl⟩
    · -- The newest jobs come first.
      rename_i filter _
      refine ⟨_, _, Query.run_answers (Sluice.listJobs filter) _ ?_ ?_, rfl⟩
      · intro a b
        simpa only [Sluice.listJobs, decide_eq_true_eq] using Int.le_total _ _
      · intro a b c first second
        simp only [Sluice.listJobs, decide_eq_true_eq] at first second ⊢
        exact Int.le_trans second first
  | listSchedules =>
    refine ⟨_, ⟨_, Query.run_answers _ _ ?_ ?_, rfl⟩, rfl⟩
    · exact fun a b => total a.name b.name
    · exact fun a b c => trans a.name b.name c.name
  | getJob id | getSchedule id => exact ⟨_, rfl, rfl⟩
  | cancelJob id | replayJob id | createSchedule body | deleteSchedule id => exact ⟨_, rfl⟩

end Effects

/-- Whether a tenant's key admits its requests. -/
def Tenant.admitted (t : Tenant) : Bool := t.apiKey != "" && t.active

/-- A tenant's key admits the tenant or nobody. -/
theorem authenticate_own {t : Tenant} {tenants : Tenants} (stored : t ∈ tenants.rows)
    {header : String} (own : extractBearerToken header = t.apiKey) :
    (t.admitted = true ∧ authenticate header tenants = .ok t) ∨
      (t.admitted = false ∧ authenticate header tenants = .error
        (writeError 401 (if t.apiKey = "" then "missing api key" else "invalid api key"))) := by
  unfold authenticate Tenant.admitted
  simp only [own]
  by_cases missing : t.apiKey = ""
  · exact .inr ⟨by simp [missing], by simp [missing]⟩
  · -- The index leaves one tenant to a key.
    have single : ∀ row ∈ tenants.rows, ∀ row' ∈ tenants.rows,
        (row.apiKey == t.apiKey && row.active) = true →
          (row'.apiKey == t.apiKey && row'.active) = true → row = row' := by
      intro row there row' there' hit hit'
      simp only [Bool.and_eq_true, beq_iff_eq] at hit hit'
      refine Table.eq_of_index (u := t.apiKey) there there' ?_ ?_ <;>
        simp [Tenant.keyed, hit.1, hit'.1]
    cases active : t.active with
    | true =>
      have found := (Table.select?_eq_some_iff single).mpr ⟨stored, by simp [active]⟩
      exact .inl ⟨by simp [missing], by simp [missing, getTenantByAPIKey, found]⟩
    | false =>
      have gone : tenants.select? (fun row => row.apiKey == t.apiKey && row.active) = none := by
        refine List.find?_eq_none.mpr fun row there hit => ?_
        simp only [Bool.and_eq_true, beq_iff_eq] at hit
        have same : row = t := Table.eq_of_index (u := t.apiKey) there stored
          (by simp [Tenant.keyed, hit.1]) rfl
        rw [same, active] at hit
        cases hit.2
      exact .inr ⟨by simp, by simp [missing, getTenantByAPIKey, gone]⟩

section Requests

variable {env : ApiEnv} {t : Tenant} {s s' : ApiState} {request : Request}
  {requests : List Request} {responses : List Response}

/-- A request of an admitted tenant is served by its endpoint. -/
theorem serves_admitted (admitted : t.admitted = true) (stored : t ∈ s.tenants.rows)
    (own : extractBearerToken request.authorization = t.apiKey) (response : Response) :
    Serves env s request response s' ↔
      request.endpoint.Serves env t request.draw s response s' := by
  unfold Serves
  rcases authenticate_own stored own with ⟨-, passed⟩ | ⟨refused, -⟩
  · rw [passed]
  · rw [admitted] at refused
    cases refused

/-- Requests of an admitted tenant are answered one after the other. -/
theorem servesAll_cons (admitted : t.admitted = true) (stored : t ∈ s.tenants.rows)
    (own : extractBearerToken request.authorization = t.apiKey) :
    ServesAll env s (request :: requests) responses ↔
      ∃ response rest,
        request.endpoint.Serves env t request.draw s response
          (request.endpoint.after env t request.draw s) ∧
        ServesAll env (request.endpoint.after env t request.draw s) requests rest ∧
        responses = response :: rest := by
  -- The state after the first answer is determined, so it need not be guessed.
  simp only [ServesAll, serves_admitted admitted stored own]
  constructor
  · rintro ⟨response, s', rest, serves, later, same⟩
    have after := serves.after_eq
    subst after
    exact ⟨response, rest, serves, later, same⟩
  · rintro ⟨response, rest, serves, later, same⟩
    exact ⟨response, _, rest, serves, later, same⟩

/-- Requests that are not admitted are all refused alike. -/
theorem servesAll_refused (refused : t.admitted = false) (stored : t ∈ s.tenants.rows)
    (own : ∀ request ∈ requests, extractBearerToken request.authorization = t.apiKey) :
    ServesAll env s requests responses ↔ responses = requests.map fun _ =>
      writeError 401 (if t.apiKey = "" then "missing api key" else "invalid api key") := by
  -- A refusal changes nothing, so all requests meet the same state.
  induction requests generalizing responses with
  | nil => exact Iff.rfl
  | cons request requests ih =>
    obtain ⟨first, others⟩ := List.forall_mem_cons.mp own
    rcases authenticate_own stored first with ⟨admitted, -⟩ | ⟨-, denied⟩
    · rw [refused] at admitted
      cases admitted
    · simp only [ServesAll, Serves, denied]
      constructor
      · rintro ⟨response, s', rest, ⟨rfl, rfl⟩, later, rfl⟩
        rw [(ih others).mp later]
        rfl
      · rintro rfl
        exact ⟨_, s, _, ⟨rfl, rfl⟩, (ih others).mpr rfl, rfl⟩

/-- An identifier that no row has and that is not the drawn one stays unused. -/
theorem ApiState.Unused.after {k : UUID} {d : Draw} (unused : s.Unused k) (other : k ≠ d.id)
    (e : Endpoint) : (e.after env t d s).Unused k := by
  obtain ⟨-, same | ⟨op, own, done⟩⟩ := e.after_db env t d s
  · exact ⟨same ▸ unused.1, same ▸ unused.2⟩
  · exact ⟨done ▸ own.jobs_unused other unused.1, done ▸ own.schedules_unused other unused.2⟩

/-- A tenant's request leaves the schedules of others alone. -/
theorem foreign_after (d : Draw) (e : Endpoint) (k : UUID) :
    foreign t (e.after env t d s) k = foreign t s k := by
  unfold foreign
  obtain ⟨-, same | ⟨op, own, done⟩⟩ := e.after_db env t d s
  · rw [same]
  · rw [done]
    exact own.schedules_foreign k

/-- Names can be put in order. -/
def Collates (env : ApiEnv) : Prop :=
  (∀ a b, env.collation a b = true ∨ env.collation b a = true) ∧
    ∀ a b c, env.collation a b = true → env.collation b c = true → env.collation a c = true

/-- Any requests are answered somehow. -/
theorem exists_servesAll (collates : Collates env) (admitted : t.admitted = true)
    (stored : t ∈ s.tenants.rows)
    (own : ∀ request ∈ requests, extractBearerToken request.authorization = t.apiKey) :
    ∃ responses, ServesAll env s requests responses := by
  -- Requests do not touch the tenants, so the next one is admitted too.
  induction requests generalizing s with
  | nil => exact ⟨[], rfl⟩
  | cons request requests ih =>
    obtain ⟨first, others⟩ := List.forall_mem_cons.mp own
    have there := (request.endpoint.after_db env t request.draw s).1
    obtain ⟨response, answered⟩ :=
      request.endpoint.exists_answer env t request.draw s collates.1 collates.2
    obtain ⟨rest, later⟩ := ih (there ▸ stored) others
    exact ⟨response :: rest, (servesAll_cons admitted stored first).mpr
      ⟨response, rest, answered, later, rfl⟩⟩

/-- The answers to the rest of the requests are the same if those to all of them are. -/
theorem servesAll_tail (collates : Collates env) (admitted : t.admitted = true)
    (agree : s.Agree t s') (own : extractBearerToken request.authorization = t.apiKey)
    (same : ∀ responses, ServesAll env s (request :: requests) responses →
      ServesAll env s' (request :: requests) responses)
    (later : ServesAll env (request.endpoint.after env t request.draw s) requests responses) :
    ServesAll env (request.endpoint.after env t request.draw s') requests responses := by
  -- Any answer to the first request completes those to the rest.
  obtain ⟨response, answered⟩ :=
    request.endpoint.exists_answer env t request.draw s collates.1 collates.2
  have whole := same _ ((servesAll_cons admitted agree.tenant.1 own).mpr
    ⟨response, responses, answered, later, rfl⟩)
  obtain ⟨_, _, -, rest, split⟩ := (servesAll_cons admitted agree.tenant.2 own).mp whole
  cases split
  exact rest

/-- The answer about a schedule is the same only if the schedules of others are. -/
theorem foreign_eq_of_answers (collates : Collates env) (admitted : t.admitted = true)
    (agree : s.Agree t s')
    (own : ∀ other ∈ request :: requests, extractBearerToken other.authorization = t.apiKey)
    (same : ∀ responses, ServesAll env s (request :: requests) responses →
      ServesAll env s' (request :: requests) responses)
    {k : UUID} (asks : request.endpoint.asks = some k) : foreign t s k = foreign t s' k := by
  -- The first answer is determined by the state, and the same list of answers fits both states.
  obtain ⟨first, -⟩ := List.forall_mem_cons.mp own
  obtain ⟨responses, served⟩ := exists_servesAll collates admitted agree.tenant.1 own
  obtain ⟨response, rest, answered, -, rfl⟩ :=
    (servesAll_cons admitted agree.tenant.1 first).mp served
  obtain ⟨_, _, answered', -, split⟩ :=
    (servesAll_cons admitted agree.tenant.2 first).mp (same _ served)
  cases split
  obtain ⟨authorization, endpoint, draw⟩ := request
  cases endpoint with
  | getSchedule id =>
    exact (handleGetSchedule_agree agree asks).mp (answered.1.symm.trans answered'.1)
  | _ => cases asks

/--
Two states that agree on a tenant's own rows and counters give the same answers to its requests,
exactly if they agree on what others have stored under the identifiers of the schedules that the
requests ask for.
-/
theorem tenant_confidential_iff (collates : Collates env) (agree : s.Agree t s')
    (own : ∀ request ∈ requests, extractBearerToken request.authorization = t.apiKey)
    (fresh : ∀ request ∈ requests, s.Unused request.draw.id ∧ s'.Unused request.draw.id)
    (distinct : (requests.map fun request => request.draw.id).Nodup) :
    (∀ responses, ServesAll env s requests responses ↔ ServesAll env s' requests responses) ↔
      (t.admitted = true → ∀ request ∈ requests, ∀ k, request.endpoint.asks = some k →
        foreign t s k = foreign t s' k) := by
  cases admitted : t.admitted with
  | false =>
    simp only [servesAll_refused admitted agree.tenant.1 own,
      servesAll_refused admitted agree.tenant.2 own, implies_true, Bool.false_eq_true,
      false_implies]
  | true =>
    simp only [forall_const]
    -- The induction is on the requests, with any two states that agree at their beginning.
    induction requests generalizing s s' with
    | nil => simp [ServesAll]
    | cons request requests ih =>
      obtain ⟨first, others⟩ := List.forall_mem_cons.mp own
      obtain ⟨⟨unused, unused'⟩, later⟩ := List.forall_mem_cons.mp fresh
      rw [List.map_cons, List.nodup_cons] at distinct
      -- After the first request the states still agree, and the others' schedules are as before.
      have agree' : (request.endpoint.after env t request.draw s).Agree t
          (request.endpoint.after env t request.draw s') :=
        request.endpoint.after_agree agree unused unused'
      have rest := ih agree' others (fun other listed => by
          have differs : other.draw.id ≠ request.draw.id := fun same =>
            distinct.1 (List.mem_map.mpr ⟨other, listed, same⟩)
          exact ⟨(later other listed).1.after differs _, (later other listed).2.after differs _⟩)
        distinct.2
      simp only [foreign_after] at rest
      rw [List.forall_mem_cons]
      constructor
      · -- The first answers determine what others have there, and the rest follows by induction.
        intro same
        refine ⟨fun k asks => ?_, rest.mp fun responses => ⟨?_, ?_⟩⟩
        · exact foreign_eq_of_answers collates admitted agree own (fun r => (same r).mp) asks
        · exact servesAll_tail collates admitted agree first fun r => (same r).mp
        · exact servesAll_tail collates admitted agree.symm first fun r => (same r).mpr
      · rintro ⟨here, there⟩ responses
        rw [servesAll_cons admitted agree.tenant.1 first,
          servesAll_cons admitted agree.tenant.2 first]
        refine exists_congr fun response => exists_congr fun answers => ?_
        rw [request.endpoint.answers_iff agree unused unused' here, rest.mpr there answers]

end Requests

/-- The order of names by their characters. -/
theorem everyMinute_collates : Collates .everyMinute := by
  refine ⟨fun a b => ?_, fun a b c first second => ?_⟩
  · simpa [ApiEnv.everyMinute] using String.le_total a b
  · simp only [ApiEnv.everyMinute, decide_eq_true_eq] at first second ⊢
    exact String.le_trans first second

/-- A schedule of another tenant than the one of the migrations. -/
def backupSchedule : Schedule :=
  ⟨5, 7, "backup", "0 2 * * *", "UTC", .object .nil, true, none, 7200 * second⟩

/-- The state right after the migrations, but for the other tenant's schedule. -/
def withBackup : ApiState :=
  { ApiState.initial with
    db := { Db.empty with schedules := ⟨[backupSchedule], by simp, by simp [Schedule.named]⟩ } }

/-- A tenant without jobs and schedules agrees on them with one that has none either. -/
theorem withBackup_agree : ApiState.initial.Agree devTenant withBackup where
  tenant := ⟨List.mem_singleton.mpr rfl, List.mem_singleton.mpr rfl⟩
  db := by
    refine ⟨fun j _ => Iff.rfl, fun sched mine => iff_of_false List.not_mem_nil fun stored => ?_⟩
    rw [List.mem_singleton.mp stored] at mine
    cases mine
  counters _ := rfl

/-- The request for a schedule by its identifier. -/
def askSchedule (id : String) : Request := ⟨"Bearer dev-token", .getSchedule id, .prompt 9 0⟩

/-- The key of the tenant in a header. -/
theorem devTenant_bearer : extractBearerToken "Bearer dev-token" = devTenant.apiKey := by
  decide +kernel

/-- A listing of schedules, and a request for one that nobody has. -/
def harmlessRequests : List Request :=
  [⟨"Bearer dev-token", .listSchedules, .prompt 8 0⟩,
    askSchedule "00000000-0000-0000-0000-000000000006"]

theorem tenant_confidential_harmless :
    ServesAll .everyMinute ApiState.initial harmlessRequests =
      ServesAll .everyMinute withBackup harmlessRequests := by
  refine funext fun responses => propext ?_
  refine (tenant_confidential_iff everyMinute_collates withBackup_agree ?_ ?_ ?_).mpr ?_ responses
  · simp [harmlessRequests, askSchedule, devTenant_bearer]
  · simp only [harmlessRequests, List.forall_mem_cons]
    exact ⟨⟨⟨rfl, rfl⟩, rfl, rfl⟩, ⟨⟨rfl, rfl⟩, rfl, rfl⟩, by simp⟩
  · decide +kernel
  · intro _ request listed k asks
    simp only [harmlessRequests, List.mem_cons, List.not_mem_nil, or_false] at listed
    rcases listed with rfl | rfl
    · cases asks
    · have named : (askSchedule "00000000-0000-0000-0000-000000000006").endpoint.asks = some 6 := by
        decide +kernel
      cases named.symm.trans asks
      decide +kernel

theorem tenant_confidential_leak :
    ¬ ∀ (env : ApiEnv) (t : Tenant) (s s' : ApiState) (request : Request)
      (responses : List Response),
      Collates env → s.Agree t s' → extractBearerToken request.authorization = t.apiKey →
        s.Unused request.draw.id → s'.Unused request.draw.id →
          (ServesAll env s [request] responses ↔ ServesAll env s' [request] responses) := by
  intro same
  -- The answer tells whether the other tenant's schedule exists.
  have own : ∀ other ∈ [askSchedule "00000000-0000-0000-0000-000000000005"],
      extractBearerToken other.authorization = devTenant.apiKey := by
    simp [askSchedule, devTenant_bearer]
  have leak := foreign_eq_of_answers everyMinute_collates (by decide) withBackup_agree own
    (fun responses => (same _ _ _ _ _ responses everyMinute_collates withBackup_agree
      devTenant_bearer ⟨rfl, rfl⟩ ⟨rfl, rfl⟩).mp) (k := 5) (by decide +kernel)
  revert leak
  decide +kernel

end Sluice
