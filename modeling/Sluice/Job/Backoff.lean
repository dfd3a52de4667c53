import Sluice.Job.Model

/-! When a failed job is tried again. -/

namespace Sluice

/-- The value of a 64-bit `int` or `time.Duration` after an operation that may wrap around. -/
def wrap64 (n : Int) : Int := n.bmod (2 ^ 64)

/-- The doublings of a delay, which end once it has reached an hour. -/
def doubleDelay : Nat → Int → Int
  | 0, delay => delay
  | n + 1, delay => if delay < 3600 then doubleDelay n (wrap64 (delay * 2)) else delay

/-- `NextRetryAt`, with what `rand.Intn` draws below a bound. -/
def nextRetryAt (attempt backoffSeconds : Int) (intn : Int → Int) (now : Time) : Time :=
  let delay := min (doubleDelay attempt.toNat backoffSeconds) 3600
  -- `int(float64(delay) * 0.2)` is a fifth rounded down for the delays that get a jitter at all.
  let jitter := delay / 5
  let delay := if jitter > 0 then delay + (intn (2 * jitter + 1) - jitter) else delay
  -- A duration counts nanoseconds.
  now + wrap64 (delay * 1000000000) / 1000

/-- What `rand.Intn` promises of the numbers it draws. -/
def Intn (intn : Int → Int) : Prop := ∀ n, 0 < n → 0 ≤ intn n ∧ intn n < n

/-- The result of an operation on 64-bit integers, if it does not wrap around. -/
def exact64 (n : Int) : Option Int := if -2 ^ 63 ≤ n ∧ n < 2 ^ 63 then some n else none

/-- The doublings of a delay as long as they are exact. -/
def doubleDelay? : Nat → Int → Option Int
  | 0, delay => some delay
  | n + 1, delay =>
    if delay < 3600 then (exact64 (delay * 2)).bind (doubleDelay? n) else some delay

/-- What the jitter makes of a delay, if every operation is exact. -/
def jitter? (intn : Int → Int) (delay : Int) : Option Int :=
  let jitter := delay / 5
  if jitter > 0 then do
    let twice ← exact64 (2 * jitter)
    let bound ← exact64 (twice + 1)
    let shift ← exact64 (intn bound - jitter)
    exact64 (delay + shift)
  else some delay

/-- `NextRetryAt` with a result only if none of its operations wraps around. -/
def nextRetryAt? (attempt backoffSeconds : Int) (intn : Int → Int) (now : Time) : Option Time := do
  let delay ← doubleDelay? attempt.toNat backoffSeconds
  let delay ← jitter? intn (min delay 3600)
  let duration ← exact64 (delay * 1000000000)
  some (now + duration / 1000)

end Sluice
