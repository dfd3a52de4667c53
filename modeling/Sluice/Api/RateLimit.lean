import Sluice.Job.Model

/-! The fixed-window counters that limit submissions. -/

namespace Sluice

/-- A counter in Redis, with the time at which it disappears if one is set. -/
structure Counter where
  value : Int
  expiresAt : Option Time
  deriving DecidableEq

/-- The counters by key. -/
abbrev Counters := String → Option Counter

namespace Counters

/-- The counter under a key that has not disappeared yet. -/
def live (key : String) (now : Time) (counters : Counters) : Option Counter :=
  (counters key).filter fun counter => counter.expiresAt.all fun expiry => decide (now < expiry)

/-- Replaces one counter. -/
def set (key : String) (counter : Option Counter) (counters : Counters) : Counters := fun k =>
  if k = key then counter else counters k

/-- `INCR`, which starts from zero where there is no counter and leaves an expiry alone. -/
def incr (key : String) (now : Time) (counters : Counters) : Int × Counters :=
  let counter := ((counters.live key now).getD ⟨0, none⟩)
  (counter.value + 1, counters.set key (some { counter with value := counter.value + 1 }))

/-- `EXPIRE`. -/
def expire (key : String) (now ttl : Time) (counters : Counters) : Counters :=
  counters.set key ((counters.live key now).map fun counter =>
    { counter with expiresAt := some (now + ttl) })

end Counters

/-- The key of a tenant's counter for one second. -/
def limitKey (tenantID : UUID) (unix : Int) : String :=
  "ratelimit:" ++ tenantID.toString ++ ":" ++ toString unix

/-- The readings of a limiter: the process's clock, and how its two commands fare in Redis. -/
structure LimiterDraw where
  now : Time
  incrAt : Time
  incrFails : Bool
  expireAt : Time
  expireFails : Bool
  deriving DecidableEq

/-- `Allow`, which answers nothing when the counting itself fails. -/
def allow (tenantID : UUID) (limit : Int) (d : LimiterDraw) (counters : Counters) :
    Option Bool × Counters :=
  if d.incrFails then (none, counters)
  else
    let key := limitKey tenantID (d.now / second)
    let (count, counters) := counters.incr key d.incrAt
    -- Only the first submission of the second sets the expiry, whose own error is ignored.
    let counters :=
      if count == 1 && !d.expireFails then counters.expire key d.expireAt (2 * second)
      else counters
    (some (decide (count ≤ limit)), counters)

end Sluice
