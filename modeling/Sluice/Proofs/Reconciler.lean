import Mathlib.Algebra.Order.Ring.Nat
import Sluice.Proofs.Queue
import Sluice.Proofs.Storage.Scans
import Sluice.Proofs.Storage.Specs
import Sluice.Worker.Loop

/-! Which pending jobs the reconciler brings back to the workers. -/

namespace Sluice

open Relational Transition

variable {tenants : Tenants} {s s' : Floor}

/-- The list in which a job is queued. -/
def Job.lane (j : Job) : String := queueKey (bucketForPriority j.priority) j.tenantID

/-- Workers look at this list. -/
def Scanned (tenants : Tenants) (key : String) : Prop :=
  ∃ t ∈ tenants.rows, t.active = true ∧ key ∈ scanKeys [t.id]

/-- Whether workers take a queued job: its tenant is active and its identifier is a proper one. -/
def served (tenants : Tenants) (j : Job) : Bool :=
  j.id != UUID.nil && (tenants.find? j.tenantID).any Tenant.active

/-- The lane of a job is looked at exactly if its tenant is active. -/
theorem scanned_lane {j : Job} :
    Scanned tenants j.lane ↔ (tenants.find? j.tenantID).any Tenant.active = true := by
  -- The name of a list determines its tenant.
  rw [Option.any_eq_true]
  constructor
  · rintro ⟨t, stored, active, looked⟩
    obtain ⟨tenantID, own, bucket, -, same⟩ := mem_scanKeys.mp looked
    rw [List.mem_singleton.mp own] at same
    exact ⟨t, (queueKey_inj same).2 ▸ Table.mem_rows_iff.mp stored, active⟩
  · rintro ⟨t, found, active⟩
    have named : t.id = j.tenantID := Table.key_of_find? found
    rw [← named] at found
    refine ⟨t, Table.mem_rows_iff.mpr found, active, mem_scanKeys.mpr ⟨t.id, by simp, ?_⟩⟩
    exact ⟨_, bucketForPriority_mem j.priority, by rw [Job.lane, named]⟩

/-- Moving an entry takes it off its list and leaves the other scanned lists alone. -/
theorem moved_apply {key : String} (scanned : Scanned tenants key) (source workerID text : String)
    (redis : Redis) : ((redis.rpop source).lpush (processingKey workerID) text) key =
      if key = source then (redis key).dropLast else redis key := by
  -- The processing list, where the entry goes, is not one of them.
  obtain ⟨t, -, -, looked⟩ := scanned
  obtain ⟨tenantID, -, bucket, lane, rfl⟩ := mem_scanKeys.mp looked
  rw [Redis.lpush, if_neg (processingKey_ne lane workerID tenantID).symm, Redis.rpop]

/-- Taking a finished identifier off a processing list leaves the scanned lists alone. -/
theorem removed_apply {key : String} (scanned : Scanned tenants key) (workerID : String)
    (jobID : UUID) (redis : Redis) : removeFromProcessing workerID jobID redis key = redis key := by
  obtain ⟨t, -, -, looked⟩ := scanned
  obtain ⟨tenantID, -, bucket, lane, rfl⟩ := mem_scanKeys.mp looked
  rw [removeFromProcessing, Redis.lrem, if_neg (processingKey_ne lane workerID tenantID).symm]

/-- The entries of the lists after the queueing of a pass. -/
theorem mem_enqueueAll (batch : List Job) (redis : Redis) {key text : String} :
    text ∈ enqueueAll batch redis key ↔
      text ∈ redis key ∨ ∃ j ∈ batch, j.lane = key ∧ j.id.toString = text := by
  -- The jobs are pushed one by one, each in front of what its list holds by then.
  induction batch generalizing redis with
  | nil => simp [enqueueAll]
  | cons j batch ih =>
    refine (ih (enqueue j.tenantID j.id j.priority redis)).trans ?_
    unfold enqueue Redis.lpush
    have lane : queueKey (bucketForPriority j.priority) j.tenantID = j.lane := rfl
    rw [lane]
    by_cases own : key = j.lane
    · simp [own, eq_comm, or_assoc, or_left_comm]
    · simp [own, Ne.symm own]

/-- A claim makes the row of a pending job a claimed one, and changes no other row. -/
theorem tryClaim_find? (s : Floor) (workerID : String) (jobID token runID : UUID) (now : Time)
    (k : UUID) :
    ((s.tryClaim workerID jobID token runID now).db.jobs.find? k = s.db.jobs.find? k ∧
      (jobID = k → ∀ row, s.db.jobs.find? k = some row → row.state ≠ .pending)) ∨
    (jobID = k ∧ Claimed k (s.tryClaim workerID jobID token runID now)) := by
  -- A refused claim leaves the database alone.
  unfold Floor.tryClaim Claimed
  rcases tryClaim_spec jobID workerID token (now + (visibilityTimeout + 30 * second)) runID now
    s.db with ⟨row, found, waiting, done⟩ | ⟨refused, done⟩
  · simp only [done, Table.find?_update]
    by_cases own : jobID = k
    · subst own
      have named : row.id = jobID := Table.key_of_find? found
      exact .inr ⟨rfl, by simp [found, named, claimRow]⟩
    · refine .inl ⟨?_, fun same => absurd same own⟩
      cases other : s.db.jobs.find? k with
      | none => rfl
      | some row' =>
        have named : row'.id = k := Table.key_of_find? other
        simp [named, Ne.symm own]
  · simp only [done]
    exact .inl ⟨trivial, fun same => same ▸ refused⟩

/-- What holds while the workers empty the lists after a pass. -/
structure Emptying (tenants : Tenants) (old : Floor) (batch : List Job) (s : Floor) : Prop where
  looked : ∀ workerID keys, s.workers workerID = .scanning keys → ∀ key ∈ keys, Scanned tenants key
  -- What the workers find and hold comes from the batch.
  entries : ∀ key, Scanned tenants key → ∀ text ∈ s.redis key,
    ∃ j ∈ batch, j.lane = key ∧ j.id.toString = text
  fetched : ∀ workerID jobID, s.workers workerID = .fetched jobID →
    ∃ j ∈ batch, j.id = jobID ∧ served tenants j = true
  -- Each job that they serve is on its way to them until it is no longer pending.
  coming : ∀ j ∈ batch, served tenants j = true → j.id.toString ∈ s.redis j.lane ∨
    (∃ workerID, s.workers workerID = .fetched j.id) ∨
      ∀ row, s.db.jobs.find? j.id = some row → row.state ≠ .pending
  rows : ∀ k, s.db.jobs.find? k = old.db.jobs.find? k ∨
    (∃ j ∈ batch, j.id = k ∧ served tenants j = true) ∧ Claimed k s

/-- What a worker does next, after one of them has been given something to do. -/
@[simp] theorem Floor.put_workers (s : Floor) (workerID : String) (fetch : Fetch) (w : String) :
    (s.put workerID fetch).workers w = if w = workerID then fetch else s.workers w := rfl

/-- The last thing that a worker was given to do is what counts. -/
theorem Floor.put_put (s : Floor) (workerID : String) (fetch fetch' : Fetch) (redis : Redis) :
    { s.put workerID fetch with redis := redis }.put workerID fetch' =
      { s with redis := redis }.put workerID fetch' := by
  simp only [Floor.put, Floor.mk.injEq, true_and]
  funext w
  split <;> rfl

/-- A claim is not about what the workers do. -/
@[simp] theorem tryClaim_workers (s : Floor) (workerID : String) (jobID token runID : UUID)
    (now : Time) : (s.tryClaim workerID jobID token runID now).workers = s.workers := by
  unfold Floor.tryClaim
  split <;> rfl

/-- A claim leaves the scanned lists alone. -/
theorem tryClaim_redis (s : Floor) (workerID : String) (jobID token runID : UUID) (now : Time)
    {key : String} (scanned : Scanned tenants key) :
    (s.tryClaim workerID jobID token runID now).redis key = s.redis key := by
  unfold Floor.tryClaim
  split
  · rfl
  · exact removed_apply scanned workerID jobID s.redis

/-- The tenants that a poll cycle visits are active. -/
theorem scanned_of_shuffled {draws : List Int} {answer : List Tenant} {order : List UUID}
    (loaded : getTenants.Answers tenants.rows answer)
    (shuffled : weightedShuffle draws (loadTenants answer) = some order) {key : String}
    (listed : key ∈ scanKeys order) : Scanned tenants key := by
  -- A shuffle only reorders the tenants that the query has answered with.
  obtain ⟨tenantID, visited, lane⟩ := mem_scanKeys.mp listed
  have weighed := (weightedShuffle_perm shuffled).mem_iff.mp visited
  rw [loadTenants, List.map_map, List.mem_map] at weighed
  obtain ⟨t, answered, rfl⟩ := weighed
  obtain ⟨stored, active⟩ := loaded.sound answered
  exact ⟨t, stored, active, mem_scanKeys.mpr ⟨t.id, by simp, lane⟩⟩

section Emptying

variable {old : Floor} {batch : List Job} (inv : Emptying tenants old batch s)
  {workerID key : String} {before keys : List String}

include inv

/-- A worker goes on to lists that workers may look at. -/
theorem Emptying.scan (free : s.workers workerID = .scanning before)
    (scanned : ∀ key ∈ keys, Scanned tenants key) :
    Emptying tenants old batch (s.put workerID (.scanning keys)) where
  looked w other at_work := by
    rw [Floor.put_workers] at at_work
    split at at_work
    · cases at_work
      exact scanned
    · exact inv.looked w other at_work
  entries := inv.entries
  fetched w jobID held := by
    rw [Floor.put_workers] at held
    split at held
    · cases held
    · exact inv.fetched w jobID held
  coming j listed serves := by
    refine (inv.coming j listed serves).imp_right (Or.imp_left ?_)
    -- The worker that goes on was not the one that holds the job.
    rintro ⟨w, held⟩
    refine ⟨w, ?_⟩
    rw [Floor.put_workers, if_neg, held]
    rintro rfl
    rw [free] at held
    cases held
  rows := inv.rows

/-- A worker takes the last entry of a list. -/
theorem Emptying.move (free : s.workers workerID = .scanning before)
    (scanned : Scanned tenants key) {front : List String} {j : Job} (listed : j ∈ batch)
    (lane : j.lane = key) (full : s.redis key = front ++ [j.id.toString]) :
    Emptying tenants old batch
      ({ s with redis := (s.redis.rpop key).lpush (processingKey workerID) j.id.toString }.put
        workerID (if j.id = UUID.nil then .scanning [] else .fetched j.id)) where
  looked w other at_work := by
    rw [Floor.put_workers] at at_work
    split at at_work
    · split at at_work
      · cases at_work
        simp
      · cases at_work
    · exact inv.looked w other at_work
  entries k scanned' text entry := by
    change text ∈ ((s.redis.rpop key).lpush (processingKey workerID) j.id.toString) k at entry
    rw [moved_apply scanned'] at entry
    refine inv.entries k scanned' text ?_
    split at entry
    · exact List.mem_of_mem_dropLast entry
    · exact entry
  fetched w jobID held := by
    rw [Floor.put_workers] at held
    split at held
    · split at held
      · cases held
      · -- A list that is scanned belongs to an active tenant, so the job is served.
        rename_i proper
        cases held
        exact ⟨j, listed, rfl, by simpa [served, proper] using scanned_lane.mp (lane ▸ scanned)⟩
    · exact inv.fetched w jobID held
  coming i listed' serves := by
    have proper : i.id ≠ UUID.nil := by
      simpa using (Bool.and_eq_true_iff.mp serves).1
    have scanned' := scanned_lane.mpr (Bool.and_eq_true_iff.mp serves).2
    rcases inv.coming i listed' serves with waiting | ⟨w, held⟩ | done
    · -- The moved entry is the job's own, or the job's own stays where it is.
      by_cases own : i.id = j.id
      · refine .inr (.inl ⟨workerID, ?_⟩)
        rw [Floor.put_workers, if_pos rfl, if_neg (own ▸ proper), own]
      · refine .inl ?_
        change _ ∈ ((s.redis.rpop key).lpush (processingKey workerID) j.id.toString) i.lane
        rw [moved_apply scanned']
        split
        · rename_i same
          rw [same, full, List.mem_append, List.mem_singleton] at waiting
          rw [same, full, List.dropLast_concat]
          exact waiting.resolve_right fun text => own (UUID.toString_inj text)
        · exact waiting
    · refine .inr (.inl ⟨w, ?_⟩)
      rw [Floor.put_workers, if_neg, held]
      rintro rfl
      rw [free] at held
      cases held
    · exact .inr (.inr done)
  rows := inv.rows

/-- A worker tries to claim the job that it holds. -/
theorem Emptying.claim {jobID : UUID} (held : s.workers workerID = .fetched jobID)
    (token runID : UUID) (now : Time) :
    Emptying tenants old batch
      ((s.tryClaim workerID jobID token runID now).put workerID (.scanning [])) := by
  have find := tryClaim_find? s workerID jobID token runID now
  constructor
  · intro w other at_work
    rw [Floor.put_workers, tryClaim_workers] at at_work
    split at at_work
    · cases at_work
      simp
    · exact inv.looked w other at_work
  · intro k scanned text entry
    exact inv.entries k scanned text (tryClaim_redis s _ _ _ _ _ scanned ▸ entry)
  · intro w other at_work
    rw [Floor.put_workers, tryClaim_workers] at at_work
    split at at_work
    · cases at_work
    · exact inv.fetched w other at_work
  · intro i listed serves
    have scanned := scanned_lane.mpr (Bool.and_eq_true_iff.mp serves).2
    -- A job that is not pending stays so, whether or not it is the one that is claimed.
    have over_with (done : jobID = i.id ∨
        ∀ row, s.db.jobs.find? i.id = some row → row.state ≠ .pending) :
        ∀ row, (s.tryClaim workerID jobID token runID now).db.jobs.find? i.id = some row →
          row.state ≠ .pending := by
      intro row found
      rcases find i.id with ⟨same, refused⟩ | ⟨-, row', found', claimed⟩
      · exact done.elim (fun own => refused own row (same ▸ found)) fun settled =>
          settled row (same ▸ found)
      · rw [found'] at found
        cases found
        simp [claimed]
    rcases inv.coming i listed serves with waiting | ⟨w, at_work⟩ | done
    · refine .inl ?_
      change i.id.toString ∈ (s.tryClaim workerID jobID token runID now).redis i.lane
      rwa [tryClaim_redis s _ _ _ _ _ scanned]
    · -- The worker that held the job has tried to claim it, and all others still hold theirs.
      by_cases own : w = workerID
      · rw [own, held] at at_work
        cases at_work
        exact .inr (.inr (over_with (.inl rfl)))
      · refine .inr (.inl ⟨w, ?_⟩)
        rw [Floor.put_workers, if_neg own, tryClaim_workers, at_work]
    · exact .inr (.inr (over_with (.inr done)))
  · intro k
    rcases find k with ⟨same, -⟩ | ⟨rfl, claimed⟩
    · rcases inv.rows k with kept | ⟨from_batch, row, found, claimed⟩
      · exact .inl (same.trans kept)
      · exact .inr ⟨from_batch, row, same.trans found, claimed⟩
    · exact .inr ⟨inv.fetched workerID jobID held, claimed⟩

/-- Every step of a worker keeps what holds while the lists are being emptied. -/
theorem Emptying.step {action : String × WorkerAction} (step : WorkerStep tenants s action s') :
    Emptying tenants old batch s' := by
  cases step with
  | poll free loaded shuffled =>
    exact inv.scan free fun key => scanned_of_shuffled loaded shuffled
  | @look workerID key keys scanning =>
    have looked := inv.looked workerID _ scanning
    rcases dequeueFrom_spec workerID key keys s.redis with
      ⟨-, done⟩ | ⟨front, text, full, moved, outcome⟩
    · rw [done]
      exact inv.scan scanning fun k later => looked k (List.mem_cons_of_mem _ later)
    · have scanned := looked key List.mem_cons_self
      obtain ⟨j, listed, lane, rfl⟩ := inv.entries key scanned text (by simp [full])
      -- Entries of the batch can always be read.
      rcases outcome with ⟨unread, -⟩ | ⟨id, read, taken⟩
      · rw [UUID.parse_toString] at unread
        cases unread
      · rw [UUID.parse_toString] at read
        cases read
        rw [taken, moved]
        exact inv.move scanning scanned listed lane full
  | claim held => exact inv.claim held _ _ _

end Emptying

/-- The lists of all active tenants. -/
def allKeys (tenants : Tenants) : List String :=
  scanKeys ((tenants.rows.filter Tenant.active).map Tenant.id)

/-- Workers look at the lists of the active tenants. -/
theorem mem_allKeys {key : String} : key ∈ allKeys tenants ↔ Scanned tenants key := by
  simp only [allKeys, Scanned, mem_scanKeys, List.mem_map, List.mem_filter, List.mem_singleton]
  grind

/-- How many entries the workers have still to take. -/
def backlog (tenants : Tenants) (redis : Redis) : Nat :=
  ((allKeys tenants).map fun key => (redis key).length).sum

/-- Only the lists that workers look at count. -/
theorem backlog_congr {redis redis' : Redis}
    (same : ∀ key, Scanned tenants key → redis key = redis' key) :
    backlog tenants redis = backlog tenants redis' := by
  refine congrArg List.sum (List.map_congr_left fun key listed => ?_)
  rw [same key (mem_allKeys.mp listed)]

/-- Taking an entry off a list leaves fewer. -/
theorem backlog_moved {key : String} (scanned : Scanned tenants key) {redis : Redis}
    {front : List String} {text : String} (full : redis key = front ++ [text]) (workerID : String) :
    backlog tenants ((redis.rpop key).lpush (processingKey workerID) text) <
      backlog tenants redis := by
  -- No list has grown, and the one that was looked at has lost an entry.
  refine List.sum_lt_sum _ _ (fun k listed => ?_) ⟨key, mem_allKeys.mpr scanned, ?_⟩
  · rw [moved_apply (mem_allKeys.mp listed)]
    split <;> simp
  · rw [moved_apply scanned, if_pos rfl, full]
    simp

/-- A worker can finish its poll cycle, and takes an entry if there is one. -/
theorem exists_cycle (free : ∀ w, s.workers w = .scanning []) (workerID : String)
    {keys : List String} (scanned : ∀ key ∈ keys, Scanned tenants key) :
    ∃ steps s', Run (WorkerStep tenants) (s.put workerID (.scanning keys)) steps s' ∧
      (∀ w, s'.workers w = .scanning []) ∧
      (backlog tenants s'.redis < backlog tenants s.redis ∨
        s'.redis = s.redis ∧ ∀ key ∈ keys, s.redis key = []) := by
  -- The cycle ends with the first entry that is an identifier, or behind the last list.
  induction keys generalizing s with
  | nil =>
    refine ⟨[], _, .nil, fun w => ?_, .inr ⟨rfl, by simp⟩⟩
    by_cases own : w = workerID <;> simp [own, free]
  | cons key keys ih =>
    obtain ⟨first, later⟩ := List.forall_mem_cons.mp scanned
    have next : (s.put workerID (.scanning (key :: keys))).workers workerID =
        .scanning (key :: keys) := by
      simp
    have look : WorkerStep tenants _ _ _ := .look next
    rw [Floor.put_put] at look
    change WorkerStep tenants _ _ ({ s with redis := (dequeueFrom workerID key keys s.redis).2 }.put
      workerID (dequeueFrom workerID key keys s.redis).1) at look
    rcases dequeueFrom_spec workerID key keys s.redis with
      ⟨empty, done⟩ | ⟨front, text, full, moved, outcome⟩
    · -- The list is empty, and the cycle goes on behind it.
      rw [done] at look
      obtain ⟨steps, s', run, idle, rest⟩ := ih free later
      refine ⟨_, s', (Run.nil.snoc look).append run, idle, rest.imp_right fun same => ?_⟩
      exact ⟨same.1, List.forall_mem_cons.mpr ⟨empty, same.2⟩⟩
    · have less := backlog_moved first full workerID
      rw [moved] at look
      generalize (s.redis.rpop key).lpush (processingKey workerID) text = redis at look less
      rcases outcome with ⟨-, kept⟩ | ⟨id, -, taken⟩
      · -- An entry that is no identifier is dropped, and the cycle goes on.
        rw [kept] at look
        obtain ⟨steps, s', run, idle, rest⟩ := ih (s := { s with redis := redis }) free later
        refine ⟨_, s', (Run.nil.snoc look).append run, idle, .inl ?_⟩
        rcases rest with fewer | ⟨same, -⟩
        · exact fewer.trans less
        · exact same ▸ less
      · by_cases missing : id = UUID.nil
        · rw [taken, if_pos missing] at look
          refine ⟨_, _, Run.nil.snoc look, fun w => ?_, .inl less⟩
          by_cases own : w = workerID <;> simp [own, free]
        · -- The worker tries to claim the job and is free again, whatever comes of it.
          rw [taken, if_neg missing] at look
          have held : ({ s with redis := redis }.put workerID (.fetched id)).workers workerID =
              .fetched id := by
            simp
          have claim : WorkerStep tenants _ (workerID, .claim 0 0 0) _ := .claim held
          refine ⟨_, _, (Run.nil.snoc look).snoc claim, fun w => ?_, .inl ?_⟩
          · by_cases own : w = workerID <;> simp [own, free]
          · refine lt_of_eq_of_lt ?_ less
            exact backlog_congr fun k scanned => tryClaim_redis _ _ _ _ _ _ scanned

/-- Workers can start a poll cycle over all lists. -/
theorem exists_poll (tenants : Tenants) (free : ∀ w, s.workers w = .scanning [])
    (workerID : String) :
    ∃ draws, WorkerStep tenants s (workerID, .poll draws)
      (s.put workerID (.scanning (allKeys tenants))) := by
  have loaded : getTenants.Answers tenants.rows (tenants.rows.filter Tenant.active) :=
    ⟨_, .refl _, List.pairwise_of_forall fun _ _ => rfl, rfl⟩
  obtain ⟨draws, shuffled⟩ := exists_draws
    (loadTenants_positive (tenants.rows.filter Tenant.active)) (.refl _)
  have poll : WorkerStep tenants s (workerID, .poll draws) _ :=
    .poll (free workerID) loaded shuffled
  have ids : (loadTenants (tenants.rows.filter Tenant.active)).map TenantWeight.id =
      (tenants.rows.filter Tenant.active).map Tenant.id := by
    simp [loadTenants, Function.comp_def]
  rw [ids] at poll
  exact ⟨draws, poll⟩

/-- The workers can always empty the lists they look at. -/
theorem exists_drain (tenants : Tenants) (free : ∀ w, s.workers w = .scanning []) :
    ∃ steps s', Run (WorkerStep tenants) s steps s' ∧ Drained tenants s' := by
  -- As long as there is an entry left, another poll cycle takes one.
  induction size : backlog tenants s.redis using Nat.strong_induction_on generalizing s with
  | h size ih =>
    have scanned : ∀ key ∈ allKeys tenants, Scanned tenants key := fun key => mem_allKeys.mp
    obtain ⟨draws, poll⟩ := exists_poll tenants free "worker"
    obtain ⟨steps, s₁, cycle, idle, rest⟩ := exists_cycle free "worker" scanned
    rcases rest with fewer | ⟨same, empty⟩
    · obtain ⟨later, s₂, run, drained⟩ := ih _ (size ▸ fewer) idle rfl
      exact ⟨_, s₂, ((Run.nil.snoc poll).append cycle).append run, drained⟩
    · refine ⟨_, s₁, (Run.nil.snoc poll).append cycle, idle, fun t stored active key looked => ?_⟩
      rw [same]
      exact empty key (mem_allKeys.mpr ⟨t, stored, active, looked⟩)

/-- Every answer to the query of a pass makes a round. -/
theorem exists_round (drained : Drained tenants s) {dbNow : Time} (later : s.clock ≤ dbNow)
    {batch : List Job}
    (answers : (Scan.reconcilePending.query dbNow).Answers s.db.jobs.rows batch) :
    ∃ s', Round tenants s (dbNow, batch) s' := by
  obtain ⟨steps, s', run, done⟩ := exists_drain tenants
    (s := { s with redis := enqueueAll batch s.redis, clock := dbNow }) drained.1
  exact ⟨s', later, answers, ⟨steps, run⟩, done⟩

/-- The batch of a pass consists of stored pending jobs. -/
theorem reconcilePending_batch {dbNow : Time} {db : Db} {batch : List Job}
    (answers : (Scan.reconcilePending.query dbNow).Answers db.jobs.rows batch) {j : Job}
    (listed : j ∈ batch) : db.jobs.find? j.id = some j ∧ j.state = .pending := by
  obtain ⟨stored, hit⟩ := answers.sound listed
  simp only [Scan.query, getPendingJobs, Bool.and_eq_true, beq_iff_eq] at hit
  exact ⟨Table.mem_rows_iff.mp stored, hit.1⟩

section Round

variable {pass : Time × List Job} (drained : Drained tenants s) (round : Round tenants s pass s')

include drained round

/-- A round starts with lists that hold just the batch, which the workers then go through. -/
theorem Round.emptying : Emptying tenants s pass.2 s' := by
  -- Before the pass the lists were empty and no worker was under way.
  obtain ⟨-, answers, ⟨steps, run⟩, -⟩ := round
  refine run.invariant (Emptying tenants s pass.2) ?_ fun _ _ _ inv step => inv.step step
  constructor
  · intro w keys at_work
    rw [drained.1 w] at at_work
    cases at_work
    simp
  · rintro key ⟨t, stored, active, looked⟩ text entry
    refine ((mem_enqueueAll pass.2 s.redis).mp entry).resolve_left ?_
    simp [drained.2 t stored active key looked]
  · intro w jobID held
    rw [drained.1 w] at held
    cases held
  · intro j listed _
    exact .inl ((mem_enqueueAll pass.2 s.redis).mpr (.inr ⟨j, listed, rfl, rfl⟩))
  · exact fun k => .inl rfl

/-- A round claims every job of its batch that workers serve. -/
theorem Round.claims {j : Job} (listed : j ∈ pass.2) (serves : served tenants j = true) :
    Claimed j.id s' := by
  have inv := round.emptying drained
  obtain ⟨found, waiting⟩ := reconcilePending_batch round.2.1 listed
  obtain ⟨-, -, -, free, empty⟩ := round
  -- The lists are empty and no worker holds anything, so the job has been dealt with.
  have settled : ∀ row, s'.db.jobs.find? j.id = some row → row.state ≠ .pending := by
    rcases inv.coming j listed serves with entry | ⟨w, held⟩ | done
    · obtain ⟨t, stored, active, looked⟩ := scanned_lane.mpr (Bool.and_eq_true_iff.mp serves).2
      rw [empty t stored active _ looked] at entry
      cases entry
    · rw [free w] at held
      cases held
    · exact done
  rcases inv.rows j.id with kept | ⟨-, claimed⟩
  · exact absurd waiting (settled j (kept.trans found))
  · exact claimed

/-- A round changes no row but by claiming a job of its batch that workers serve. -/
theorem Round.rows (k : UUID) : s'.db.jobs.find? k = s.db.jobs.find? k ∨
    (∃ j ∈ pass.2, j.id = k ∧ served tenants j = true) ∧ Claimed k s' :=
  (round.emptying drained).rows k

/-- A row that is pending after a round was so before. -/
theorem Round.pending {k : UUID} {row : Job} (found : s'.db.jobs.find? k = some row)
    (waiting : row.state = .pending) : s.db.jobs.find? k = some row := by
  rcases round.rows drained k with kept | ⟨-, row', found', claimed⟩
  · rwa [← kept]
  · rw [found] at found'
    cases found'
    rw [waiting] at claimed
    cases claimed

/-- A job that workers do not serve stays as it is. -/
theorem Round.unserved {j : Job} (found : s.db.jobs.find? j.id = some j)
    (unserved : served tenants j = false) : s'.db.jobs.find? j.id = some j := by
  rcases round.rows drained j.id with kept | ⟨⟨i, listed, own, serves⟩, -⟩
  · rwa [kept]
  · have found' := (reconcilePending_batch round.2.1 listed).1
    rw [own, found] at found'
    cases found'
    rw [unserved] at serves
    cases serves

omit drained in
/-- The clock of a round is the one that its pass has read. -/
theorem Round.clock : s'.clock = pass.1 := by
  obtain ⟨-, -, ⟨steps, run⟩, -⟩ := round
  refine run.invariant (fun s => s.clock = pass.1) rfl fun t action t' same step => ?_
  cases step with
  | poll => exact same
  | look => exact same
  | claim =>
    refine Eq.trans ?_ same
    unfold Floor.tryClaim Floor.put
    split <;> rfl

end Round

/-- The pending jobs that may come before a given one in a batch and are not served. -/
def unservedAhead (tenants : Tenants) (db : Db) (j : Job) : Nat :=
  db.jobs.rows.countP fun other =>
    (byPriority other j && other != j) && (other.state == .pending && !served tenants other)

/-- The pending jobs that may come before a given one, or are it, and are served. -/
def servedAhead (tenants : Tenants) (db : Db) (j : Job) : Nat :=
  db.jobs.rows.countP fun other =>
    byPriority other j && (other.state == .pending && served tenants other)

/-- A claimed job stays claimed. -/
theorem Claimed.round {pass : Time × List Job} {k : UUID} (claimed : Claimed k s)
    (drained : Drained tenants s) (round : Round tenants s pass s') : Claimed k s' := by
  rcases round.rows drained k with kept | ⟨-, now⟩
  · obtain ⟨row, found, state⟩ := claimed
    exact ⟨row, kept.trans found, state⟩
  · exact now

section Progress

variable {j : Job} {pass : Time × List Job} (found : s.db.jobs.find? j.id = some j)
  (waiting : j.state = .pending) (overdue : j.runAt ≤ s.clock - minute)
  (few : unservedAhead tenants s.db j < pendingReconcileBatchSize)
  (round : Round tenants s pass s')

include found waiting overdue few round

/-- A batch that leaves an overdue job out has a served one that comes before it. -/
theorem Round.exists_served (omitted : j ∉ pass.2) :
    ∃ i ∈ pass.2, byPriority i j = true ∧ served tenants i = true := by
  have hit : (Scan.reconcilePending.query pass.1).holds j = true := by
    have later := round.1
    simp only [Scan.query, getPendingJobs, waiting, beq_self_eq_true, Bool.true_and,
      decide_eq_true_eq]
    lia
  obtain ⟨full, before⟩ := round.2.1.crowded (n := pendingReconcileBatchSize) rfl rfl
    (Table.mem_rows_iff.mpr found) hit omitted
  by_contra unserved
  -- Otherwise the batch would be full of unserved jobs ahead, which are too few for that.
  have all : pass.2.countP (fun other => byPriority other j && other != j &&
      !served tenants other) = pendingReconcileBatchSize := by
    rw [List.countP_eq_length.mpr, full]
    intro other member
    have ahead : byPriority other j = true := before other member
    have differs : other ≠ j := fun same => omitted (same ▸ member)
    have left : served tenants other = false :=
      Bool.eq_false_iff.mpr fun serves => unserved ⟨other, member, ahead, serves⟩
    simp [ahead, differs, left]
  refine absurd few (Nat.not_lt.mpr ?_)
  rw [← all]
  refine (round.2.1.countP_le _).trans (List.countP_mono_left fun other _ counted => ?_)
  simp only [Scan.query, getPendingJobs, Bool.and_eq_true] at counted ⊢
  exact ⟨counted.1.1, counted.2.1, counted.1.2⟩

/-- A round claims an overdue job or one that comes before it. -/
theorem Round.progress (drained : Drained tenants s) (serves : served tenants j = true) :
    Claimed j.id s' ∨ servedAhead tenants s'.db j < servedAhead tenants s.db j := by
  by_cases listed : j ∈ pass.2
  · exact .inl (round.claims drained listed serves)
  · obtain ⟨i, member, ahead, serves'⟩ := round.exists_served found waiting overdue few listed
    obtain ⟨found', waiting'⟩ := reconcilePending_batch round.2.1 member
    refine .inr (Table.countP_lt (fun k row found counted => ⟨row, ?_, counted⟩) found' ?_ ?_)
    · simp only [Bool.and_eq_true, beq_iff_eq] at counted
      exact round.pending drained found counted.2.1
    · simp [ahead, waiting', serves']
    · -- The job that has been claimed does not count any more.
      intro row there
      obtain ⟨row', there', claimed⟩ := round.claims drained member serves'
      rw [there] at there'
      cases there'
      simp [claimed]

end Progress

/-- A served job with less than a full batch of unserved ones ahead of it is claimed in the end. -/
theorem claimed_of_few {j : Job} (found : s.db.jobs.find? j.id = some j)
    (waiting : j.state = .pending) (overdue : j.runAt ≤ s.clock - minute)
    (drained : Drained tenants s) (serves : served tenants j = true)
    (few : unservedAhead tenants s.db j < pendingReconcileBatchSize) :
    After (Round tenants) (Claimed j.id) (servedAhead tenants s.db j + 1) s := by
  -- A batch that leaves the job out takes with it a served one that is ahead.
  refine After.of_measure
    (fun s => Drained tenants s ∧ j.runAt ≤ s.clock - minute ∧
      (s.db.jobs.find? j.id = some j ∨ Claimed j.id s) ∧
      unservedAhead tenants s.db j < pendingReconcileBatchSize)
    (fun s => servedAhead tenants s.db j) ?_ ?_ ?_ ?_ ⟨drained, overdue, .inl found, few⟩
    (.inr (Nat.lt_succ_self _))
  · rintro s ⟨drained, -⟩
    obtain ⟨s', round⟩ := exists_round drained le_rfl (Scan.run_answers _ s.clock _)
    exact ⟨_, s', round⟩
  · rintro s pass s' ⟨drained, overdue, there, few⟩ round
    have later := round.1
    refine ⟨round.2.2.2, by rw [round.clock]; lia, ?_, lt_of_le_of_lt ?_ few⟩
    · rcases there with found | claimed
      · rcases round.rows drained j.id with kept | ⟨-, claimed⟩
        · exact .inl (kept.trans found)
        · exact .inr claimed
      · exact .inr (claimed.round drained round)
    · refine Table.countP_le fun k row found counted => ⟨row, ?_, counted⟩
      simp only [Bool.and_eq_true, beq_iff_eq] at counted
      exact round.pending drained found counted.2.1
  · rintro s pass s' ⟨drained, -⟩ claimed round
    exact claimed.round drained round
  · rintro s pass s' ⟨drained, overdue, there, few⟩ unclaimed round
    exact round.progress (there.resolve_right unclaimed) waiting overdue few drained serves

/-- There is a time, as late as one likes, at which the run times of all jobs are past. -/
theorem exists_late (rows : List Job) (clock : Time) :
    ∃ dbNow, clock ≤ dbNow ∧ ∀ j ∈ rows, j.runAt ≤ dbNow - minute := by
  -- The latest of finitely many run times is enough.
  induction rows with
  | nil => exact ⟨clock, le_rfl, by simp⟩
  | cons j rows ih =>
    obtain ⟨dbNow, later, late⟩ := ih
    refine ⟨max dbNow (j.runAt + minute), by lia, List.forall_mem_cons.mpr ⟨by lia, ?_⟩⟩
    intro other listed
    have := late other listed
    lia

/-- Once the unserved jobs are due, a batch of them may leave a job out that could be claimed. -/
theorem exists_useless_batch {j : Job} {dbNow : Time} (found : s.db.jobs.find? j.id = some j)
    (waiting : j.state = .pending)
    (late : ∀ other ∈ s.db.jobs.rows, other.runAt ≤ dbNow - minute)
    (crowd : served tenants j = true →
      pendingReconcileBatchSize ≤ unservedAhead tenants s.db j) :
    ∃ batch, (Scan.reconcilePending.query dbNow).Answers s.db.jobs.rows batch ∧
      (j ∈ batch → served tenants j = false) := by
  cases serves : served tenants j with
  | false => exact ⟨_, Scan.run_answers _ dbNow _, fun _ => rfl⟩
  | true =>
    have stored := Table.mem_rows_iff.mpr found
    have hit : (Scan.reconcilePending.query dbNow).holds j = true := by
      simpa [Scan.query, getPendingJobs, waiting] using late j stored
    have ahead : pendingReconcileBatchSize ≤
        s.db.jobs.rows.countP ((Scan.reconcilePending.query dbNow).ahead j) := by
      refine (crowd serves).trans (List.countP_mono_left fun other stored counted => ?_)
      have due := late other stored
      simp only [Query.ahead, Scan.query, getPendingJobs, Bool.and_eq_true,
        decide_eq_true_eq] at counted ⊢
      exact ⟨counted.1, counted.2.1, due⟩
    obtain ⟨batch, answers, omitted⟩ := Query.exists_answer_without rfl rfl stored hit
      (List.Nodup.of_map _ s.db.jobs.keyed) (Scan.before_total _ dbNow)
      (Scan.before_trans _ dbNow) ahead
    exact ⟨batch, answers, fun listed => absurd listed omitted⟩

/-- A job need not be claimed if it is not served or has a full batch of unserved ones ahead. -/
theorem never_claimed {j : Job} (found : s.db.jobs.find? j.id = some j)
    (waiting : j.state = .pending) (drained : Drained tenants s)
    (crowd : served tenants j = true →
      pendingReconcileBatchSize ≤ unservedAhead tenants s.db j) (n : Nat) :
    ¬ After (Round tenants) (Claimed j.id) n s := by
  -- The unserved jobs stay ahead for good, and once they are due they may fill every batch.
  refine not_after (fun s => Drained tenants s ∧ s.db.jobs.find? j.id = some j ∧
    (served tenants j = true → pendingReconcileBatchSize ≤ unservedAhead tenants s.db j)) ?_ ?_ n
    ⟨drained, found, crowd⟩
  · rintro s ⟨-, found, -⟩ ⟨row, found', claimed⟩
    rw [found] at found'
    cases found'
    rw [waiting] at claimed
    cases claimed
  · rintro s ⟨drained, found, crowd⟩
    obtain ⟨dbNow, later, late⟩ := exists_late s.db.jobs.rows s.clock
    -- The batch has the job only if that is of no use to it.
    obtain ⟨batch, answers, useless⟩ := exists_useless_batch found waiting late crowd
    obtain ⟨s', round⟩ := exists_round drained later answers
    refine ⟨_, s', round, round.2.2.2, ?_, fun serves => (crowd serves).trans ?_⟩
    · rcases round.rows drained j.id with kept | ⟨⟨i, listed, own, serves⟩, -⟩
      · exact kept.trans found
      · -- A claim of the job would be one of the very row that is of no use to the batch.
        have found' := (reconcilePending_batch answers listed).1
        rw [own, found] at found'
        cases found'
        rw [useless listed] at serves
        cases serves
    · refine Table.countP_le fun k row there counted => ⟨row, ?_, counted⟩
      simp only [Bool.and_eq_true, Bool.not_eq_true'] at counted
      have named : row.id = k := Table.key_of_find? there
      rw [← named] at there ⊢
      exact round.unserved drained there counted.2.2

/-- Nothing is left to take when all lists are lost. -/
theorem drained_emptied (tenants : Tenants) (db : Db) (clock : Time) :
    Drained tenants (Floor.emptied db clock) :=
  ⟨fun _ => rfl, fun _ _ _ _ _ => rfl⟩

/--
Some number of rounds claims a pending job that is a minute overdue when all lists are lost, exactly
if workers serve it and it has less than a full batch of unserved jobs ahead of it.
-/
theorem pending_claimed_iff {db : Db} {clock : Time} {j : Job} (stored : j ∈ db.jobs.rows)
    (waiting : j.state = .pending) (overdue : j.runAt ≤ clock - minute) :
    (∃ n, After (Round tenants) (Claimed j.id) n (Floor.emptied db clock)) ↔
      served tenants j = true ∧ unservedAhead tenants db j < pendingReconcileBatchSize := by
  have found : db.jobs.find? j.id = some j := Table.mem_rows_iff.mp stored
  have drained := drained_emptied tenants db clock
  constructor
  · rintro ⟨n, claimed⟩
    by_contra crowd
    rw [not_and, Nat.not_lt] at crowd
    exact never_claimed found waiting drained crowd n claimed
  · rintro ⟨serves, few⟩
    exact ⟨_, claimed_of_few found waiting overdue drained serves few⟩

/-- A pending job of a tenant, due at the time that its number says. -/
def pendingJob (tenantID : UUID) (i : Nat) : Job :=
  submittedJob tenantID .hook (BitVec.ofNat 128 (i + 1)) i

/-- The pending jobs of a backlog, of which only the last is of an active tenant. -/
def backlogJob (i : Nat) : Job := pendingJob (if i < 500 then 7 else devTenant.id) i

/-- One more pending jobs than a batch holds. -/
def pendingBacklog : Db :=
  { Db.empty with
    jobs := .numbered 501 backlogJob
      (fun i small j small' same => by
        have := UUID.ofNat_inj (by omega) (by omega) same
        omega)
      fun i _ j _ u entry => by cases entry }

theorem devTenant_keyed : ([devTenant].map Tenant.id).Nodup := by decide

theorem devTenant_indexed : ([devTenant].filterMap Tenant.keyed).Nodup := by decide

/-- The tenants right after the migrations. -/
def devTenants : Tenants := ⟨[devTenant], devTenant_keyed, devTenant_indexed⟩

theorem pending_claimed_alone :
    ∃ n, After (Round devTenants) (Claimed 1) n
      (Floor.emptied { Db.empty with jobs := ⟨[pendingJob devTenant.id 0], by decide, by decide⟩ }
        minute) := by
  refine (pending_claimed_iff (j := pendingJob devTenant.id 0) ?_ ?_ ?_).mpr ⟨?_, ?_⟩
  · exact List.mem_singleton.mpr rfl
  all_goals decide +kernel

theorem pending_never_claimed :
    ¬ ∀ (tenants : Tenants) (db : Db) (clock : Time), ∀ j ∈ db.jobs.rows, j.state = .pending →
      (tenants.find? j.tenantID).any Tenant.active = true → j.runAt ≤ clock - minute →
        ∃ n, After (Round tenants) (Claimed j.id) n (Floor.emptied db clock) := by
  intro claimed
  -- The last job has five hundred of a tenant without a row ahead of it.
  have stored : backlogJob 500 ∈ pendingBacklog.jobs.rows := by
    rw [pendingBacklog, Table.rows_numbered]
    exact List.mem_map_of_mem (List.mem_range.mpr (by decide))
  obtain ⟨n, after⟩ := claimed devTenants pendingBacklog (500 + minute) _ stored rfl
    (by decide +kernel) (by decide +kernel)
  refine never_claimed (s := Floor.emptied pendingBacklog (500 + minute))
    (Table.mem_rows_iff.mp stored) rfl (drained_emptied _ _ _) (fun _ => ?_) n after
  decide +kernel

end Sluice
