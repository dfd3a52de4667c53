import Sluice.Queue.Dequeue
import Sluice.Scheduler.Tasks
import Sluice.Transition.After

/-! The loop of the workers up to the claim of a job, and its rounds with the reconciler. -/

namespace Sluice

open Relational Transition

/-- How long a claim lasts before its first heartbeat is due, without the grace period. -/
def visibilityTimeout : Time := 30 * second

/-- `loadTenants`, on the rows that `GetTenants` has returned. -/
def loadTenants (tenants : List Tenant) : List TenantWeight :=
  -- A weight that is not positive counts as the default one.
  tenants.map fun t => ⟨t.id, if t.weight ≤ 0 then 100 else t.weight⟩

/-- The jobs table, the Redis lists, the clock, and what each worker is doing. -/
structure Floor where
  db : Db
  redis : Redis
  clock : Time
  workers : String → Fetch

/-- The floor with what one worker does next. -/
def Floor.put (workerID : String) (fetch : Fetch) (s : Floor) : Floor :=
  { s with workers := fun w => if w = workerID then fetch else s.workers w }

/-- The beginning of `process`, which gives up when the claim is refused. -/
def Floor.tryClaim (workerID : String) (jobID token runID : UUID) (now : Time) (s : Floor) :
    Floor :=
  match Sluice.tryClaim jobID workerID token (now + (visibilityTimeout + 30 * second)) runID now
      s.db with
  | (some _, db) => { s with db }
  | (none, db) => { s with db, redis := removeFromProcessing workerID jobID s.redis }

/-- What a worker does next. -/
inductive WorkerAction where
  -- It starts a poll cycle.
  | poll (draws : List Int)
  -- It looks at the next list of the cycle.
  | look
  -- It claims the job that it has fetched.
  | claim (token runID : UUID) (now : Time)
  deriving DecidableEq

/--
A step of some worker, which is atomic in Redis and in the database.

Every worker knows the tenants that `GetTenants` returns, in some order.
-/
inductive WorkerStep (tenants : Tenants) : Floor → String × WorkerAction → Floor → Prop where
  | poll {s : Floor} {workerID : String} {draws : List Int} {answer : List Tenant}
      {order : List UUID} (free : s.workers workerID = .scanning [])
      (loaded : getTenants.Answers tenants.rows answer)
      (shuffled : weightedShuffle draws (loadTenants answer) = some order) :
      WorkerStep tenants s (workerID, .poll draws) (s.put workerID (.scanning (scanKeys order)))
  | look {s : Floor} {workerID key : String} {keys : List String}
      (scanning : s.workers workerID = .scanning (key :: keys)) :
      WorkerStep tenants s (workerID, .look)
        ({ s with redis := (dequeueFrom workerID key keys s.redis).2 }.put workerID
          (dequeueFrom workerID key keys s.redis).1)
  | claim {s : Floor} {workerID : String} {jobID token runID : UUID} {now : Time}
      (fetched : s.workers workerID = .fetched jobID) :
      WorkerStep tenants s (workerID, .claim token runID now)
        ((s.tryClaim workerID jobID token runID now).put workerID (.scanning []))

/-- Every worker is between two poll cycles and the lists of the active tenants are empty. -/
def Drained (tenants : Tenants) (s : Floor) : Prop :=
  (∀ workerID, s.workers workerID = .scanning []) ∧
    ∀ t ∈ tenants.rows, t.active = true → ∀ key ∈ scanKeys [t.id], s.redis key = []

/-- The queueing of a pass, in the order of its batch. -/
def enqueueAll (batch : List Job) (redis : Redis) : Redis :=
  batch.foldl (fun redis j => enqueue j.tenantID j.id j.priority redis) redis

/--
A pass of `reconcilePending`, then the workers until they have emptied the lists they look at.

It comes with the database's clock and the batch of the pass.
-/
def Round (tenants : Tenants) (s : Floor) (pass : Time × List Job) (s' : Floor) : Prop :=
  -- The workers start with the lists that the pass has filled, and take as long as they need.
  s.clock ≤ pass.1 ∧
    (Scan.reconcilePending.query pass.1).Answers s.db.jobs.rows pass.2 ∧
    (∃ steps, Run (WorkerStep tenants)
      { s with redis := enqueueAll pass.2 s.redis, clock := pass.1 } steps s') ∧
    Drained tenants s'

/-- A worker has claimed the job. -/
def Claimed (jobID : UUID) (s : Floor) : Prop :=
  ∃ row, s.db.jobs.find? jobID = some row ∧ row.state = .claimed

/-- The database with all Redis lists lost and all workers about to start. -/
def Floor.emptied (db : Db) (clock : Time) : Floor :=
  ⟨db, fun _ => [], clock, fun _ => .scanning []⟩

end Sluice
