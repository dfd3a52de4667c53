import Sluice.Queue.Redis

/-! How workers take identifiers off the Redis lists. -/

namespace Sluice

/-- `RPOP`, without the popped value. -/
def Redis.rpop (key : String) (redis : Redis) : Redis := fun k =>
  if k = key then (redis k).dropLast else redis k

/-- `LMOVE source destination RIGHT LEFT`, which returns nothing for an empty list. -/
def Redis.lmove (source destination : String) (redis : Redis) : Option String × Redis :=
  match (redis source).getLast? with
  | none => (none, redis)
  | some value => (some value, (redis.rpop source).lpush destination value)

/-- `LREM key 0 value`, which removes every occurrence. -/
def Redis.lrem (key value : String) (redis : Redis) : Redis := fun k =>
  if k = key then (redis k).filter (· != value) else redis k

/-- The list of the identifiers that a worker has taken and not finished. -/
def processingKey (workerID : String) : String := "processing:" ++ workerID

/-- `RemoveFromProcessing`. -/
def removeFromProcessing (workerID : String) (jobID : UUID) (redis : Redis) : Redis :=
  redis.lrem (processingKey workerID) jobID.toString

/-- A tenant with its share of the workers' time. -/
structure TenantWeight where
  id : UUID
  weight : Int
  deriving DecidableEq

/-- The tenant on which a draw falls, with those that are left. -/
def pick (r cum : Int) : List TenantWeight → Option (UUID × List TenantWeight)
  | [] => none
  | t :: rest =>
    if r < cum + t.weight then some (t.id, rest)
    else (pick r (cum + t.weight) rest).map fun picked => (picked.1, t :: picked.2)

/--
The sum of the weights, which bounds a draw.

Go adds up in 64 bits. That is exact for weights of an `INT` column and at most 2^32 tenants, where
no sum reaches 2^63.
-/
def totalWeight (remaining : List TenantWeight) : Int :=
  (remaining.map TenantWeight.weight).sum

/--
`weightedShuffle` on the numbers that `rand.Intn` draws, one for each round of its loop.

It has no result when `rand.Intn` cannot draw such a number or the loop goes on after the last one.
-/
def weightedShuffle : List Int → List TenantWeight → Option (List UUID)
  | _, [] => some []
  | [], _ :: _ => none
  | r :: draws, t :: rest =>
    if 0 ≤ r ∧ r < totalWeight (t :: rest) then
      match pick r 0 (t :: rest) with
      | some (id, remaining) => (weightedShuffle draws remaining).map (id :: ·)
      -- A round that reaches no tenant leaves them all for the next one.
      | none => weightedShuffle draws (t :: rest)
    else none

/-- The lists of a poll cycle, tenant by tenant and within each of them lane by lane. -/
def scanKeys (order : List UUID) : List String :=
  order.flatMap fun tenantID => priorityBuckets.map fun bucket => queueKey bucket tenantID

/-- The identifier that `Dequeue` returns when nothing arrives. -/
def UUID.nil : UUID := 0

/-- Where a worker stands in its use of `Dequeue`. -/
inductive Fetch where
  -- The lists that the poll cycle has still to look at, none of them between two cycles.
  | scanning (keys : List String)
  -- The identifier that the call has returned, which the worker is about to process.
  | fetched (jobID : UUID)
  deriving DecidableEq

/--
One look of `Dequeue` at a list, with the rest of the poll cycle.

An entry that is no identifier stays behind in the processing list, and so does the identifier that
the worker takes for the sign that nothing has arrived.
-/
def dequeueFrom (workerID key : String) (keys : List String) (redis : Redis) : Fetch × Redis :=
  match redis.lmove key (processingKey workerID) with
  | (none, redis) => (.scanning keys, redis)
  | (some text, redis) =>
    match UUID.parse text with
    | none => (.scanning keys, redis)
    | some id => (if id = UUID.nil then .scanning [] else .fetched id, redis)

end Sluice
