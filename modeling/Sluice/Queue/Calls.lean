import Sluice.Queue.Dequeue
import Sluice.Transition.Run

/-! The calls of the queue, each of which makes one Redis command at a time. -/

namespace Sluice

/-- One lane of one tenant, which is among those that workers scan. -/
structure Lane where
  tenantID : UUID
  bucket : String
  scanned : bucket ∈ priorityBuckets
  deriving DecidableEq

namespace Lane

/-- The Redis list of a lane. -/
def key (lane : Lane) : String := queueKey lane.bucket lane.tenantID

/-- How many lanes of the tenant are more urgent. -/
def rank (lane : Lane) : Nat := priorityBuckets.idxOf lane.bucket

/-- The lane that a job is queued in. -/
def ofPriority (tenantID : UUID) (priority : Int16) : Lane :=
  ⟨tenantID, bucketForPriority priority, bucketForPriority_mem priority⟩

end Lane

/-- The lanes of one tenant in the order of a scan. -/
def tenantLanes (tenantID : UUID) : List Lane :=
  priorityBuckets.attach.map fun bucket => ⟨tenantID, bucket.1, bucket.2⟩

/-- The lanes of a poll cycle. -/
def scanLanes (order : List UUID) : List Lane := order.flatMap tenantLanes

/-- One look of `Dequeue` at a lane, with the identifier that it returns. -/
def look (workerID : String) (lane : Lane) (redis : Redis) : Option UUID × Redis :=
  match redis.lmove lane.key (processingKey workerID) with
  | (none, redis) => (none, redis)
  -- An entry that cannot be read has been moved all the same.
  | (some text, redis) => (UUID.parse text, redis)

/-- A poll cycle during which nobody else talks to Redis, with the lane that it is served from. -/
def scan (workerID : String) : List Lane → Redis → Option (Lane × UUID) × Redis
  | [], redis => (none, redis)
  | lane :: lanes, redis =>
    match look workerID lane redis with
    | (some id, redis) => (some (lane, id), redis)
    | (none, redis) => scan workerID lanes redis

/-- A call of `Dequeue` that has not returned, with the lanes left of its poll cycle. -/
structure DequeueCall where
  workerID : String
  tenants : List TenantWeight
  lanes : List Lane

/-- The Redis lists, and the calls of `Dequeue` under way. -/
structure Queues where
  redis : Redis
  calls : Nat → Option DequeueCall

namespace Queues

/-- Empty lists, and no call under way. -/
def empty : Queues where
  redis _ := []
  calls _ := none

/-- The queues with a call in another state. -/
def put (s : Queues) (call : Nat) (c : Option DequeueCall) : Queues :=
  { s with calls := Function.update s.calls call c }

end Queues

/-- What a caller of the queue does next. -/
inductive QueueAction where
  | enqueue (tenantID jobID : UUID) (priority : Int16)
  | dequeue (call : Nat) (workerID : String) (tenants : List TenantWeight)
  -- The call begins a poll cycle.
  | poll (call : Nat) (draws : List Int)
  -- The call moves the next entry of a lane, if there is one.
  | look (call : Nat)
  -- The call has waited for too long.
  | giveUp (call : Nat)
  | removeFromProcessing (workerID : String) (jobID : UUID)
  deriving DecidableEq

/-- The queues after an action, if it is possible. -/
def Queues.step? (s : Queues) : QueueAction → Option Queues
  | .enqueue tenantID jobID priority =>
    some { s with redis := Sluice.enqueue tenantID jobID priority s.redis }
  | .dequeue call workerID tenants =>
    match s.calls call with
    | none => some (s.put call (some ⟨workerID, tenants, []⟩))
    | some _ => none
  | .poll call draws =>
    match s.calls call with
    | some ⟨workerID, tenants, []⟩ => (weightedShuffle draws tenants).map fun order =>
      s.put call (some ⟨workerID, tenants, scanLanes order⟩)
    | _ => none
  | .look call =>
    match s.calls call with
    | some ⟨workerID, tenants, lane :: lanes⟩ =>
      let (answer, redis) := Sluice.look workerID lane s.redis
      -- The call goes on to the next lane unless it returns.
      some ({ s with redis }.put call
        (if answer.isSome then none else some ⟨workerID, tenants, lanes⟩))
    | _ => none
  | .giveUp call =>
    match s.calls call with
    | some ⟨_, _, []⟩ => some (s.put call none)
    | _ => none
  | .removeFromProcessing workerID jobID =>
    some { s with redis := Sluice.removeFromProcessing workerID jobID s.redis }

/-- One step of some caller. -/
def Queues.Next (s : Queues) (a : QueueAction) (s' : Queues) : Prop := s.step? a = some s'

end Sluice
