import Sluice.Storage.Tenants

/-! The Redis lists that hand job identifiers to workers, and how many wait in them. -/

namespace Sluice

/-- The lists stored in Redis, by key, with the left end first. -/
abbrev Redis := String → List String

/-- `LPUSH`. -/
def Redis.lpush (key value : String) (redis : Redis) : Redis := fun k =>
  if k = key then value :: redis k else redis k

/-- The lanes in the order a worker scans them. -/
def priorityBuckets : List String := ["queue:1", "queue:5", "queue:10"]

/-- The lane of a priority. -/
def bucketForPriority (priority : Int16) : String :=
  if priority ≤ priorityHigh then "queue:1"
  else if priority ≤ priorityNormal then "queue:5"
  else "queue:10"

/-- The list of one lane of one tenant. -/
def queueKey (bucket : String) (tenantID : UUID) : String := bucket ++ ":" ++ tenantID.toString

/-- `Enqueue`. -/
def enqueue (tenantID jobID : UUID) (priority : Int16) (redis : Redis) : Redis :=
  redis.lpush (queueKey (bucketForPriority priority) tenantID) jobID.toString

/-- Queueing a job only adds to the lists. -/
theorem enqueue_keeps {redis : Redis} {key value : String} (tenantID jobID : UUID)
    (priority : Int16) (listed : value ∈ redis key) :
    value ∈ enqueue tenantID jobID priority redis key := by
  unfold enqueue Redis.lpush
  split
  · exact List.mem_cons_of_mem _ listed
  · exact listed

/-- A queued job stands in the list of its tenant's lane. -/
theorem mem_enqueue (tenantID jobID : UUID) (priority : Int16) (redis : Redis) :
    jobID.toString ∈ enqueue tenantID jobID priority redis
      (queueKey (bucketForPriority priority) tenantID) := by
  simp [enqueue, Redis.lpush]

/-- Every priority has a lane that workers scan. -/
theorem bucketForPriority_mem (priority : Int16) :
    bucketForPriority priority ∈ priorityBuckets := by
  unfold bucketForPriority priorityBuckets
  split
  · simp
  · split <;> simp

/-- `LLEN`. -/
def Redis.llen (key : String) (redis : Redis) : Nat := (redis key).length

/-- The lanes with the labels under which their depths are shown. -/
def laneLabels : List (String × String) :=
  [("high", "queue:1"), ("normal", "queue:5"), ("low", "queue:10")]

/-- The lines of the `queue-depth` command, with the lists that Redis gives no answer for. -/
def cmdQueueDepth (fails : String → Bool) (redis : Redis) : List (String × Int) :=
  laneLabels.map fun (label, key) => (label, if fails key then -1 else redis.llen key)

/-- An entry of what the dashboard gets. -/
structure QueueDepth where
  tenantID : UUID
  tenant : String
  priority : String
  depth : Nat
  deriving DecidableEq

/-- `queueDepths`, on the rows that `GetTenants` has returned. -/
def queueDepths (fails : String → Bool) (tenants : List Tenant) (redis : Redis) :
    List QueueDepth :=
  tenants.flatMap fun t => laneLabels.map fun (label, bucket) =>
    let key := queueKey bucket t.id
    { tenantID := t.id
      tenant := t.name
      priority := label
      -- An error counts as an empty list here.
      depth := if fails key then 0 else redis.llen key }

end Sluice
