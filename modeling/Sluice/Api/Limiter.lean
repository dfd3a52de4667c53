import Sluice.Api.RateLimit
import Sluice.Transition.Run

/-! `Allow` command by command, in any number of processes that share a clock and Redis. -/

namespace Sluice

open Transition

/-- A call of `Allow`, by its tenant and by what it has read from the clock. -/
structure AllowCall where
  tenantID : UUID
  read : Time
  deriving DecidableEq

/-- The key that a call counts under. -/
def AllowCall.key (c : AllowCall) : String := limitKey c.tenantID (c.read / second)

/-- The clock, the counters, and the calls under way. -/
structure Limiters where
  now : Time
  counters : Counters
  -- Calls that are about to count, and calls that are about to set an expiry before they answer.
  counting : List AllowCall
  expiring : List (AllowCall × Bool)

/-- What happens next to some call. -/
inductive LimiterAction where
  | tick (later : Time)
  -- A call starts and reads the clock.
  | start (tenantID : UUID)
  | incr (c : AllowCall)
  | expire (c : AllowCall) (answer : Bool)
  deriving DecidableEq

namespace Limiters

/-- No counters and no calls. -/
def init (start : Time) : Limiters where
  now := start
  counters _ := none
  counting := []
  expiring := []

/-- The answer of a call whose counter has been incremented. -/
def answer (limits : UUID → Int) (c : AllowCall) (s : Limiters) : Bool :=
  decide ((s.counters.incr c.key s.now).1 ≤ limits c.tenantID)

/-- The calls and the counters after an action, if it is possible. -/
def step? (limits : UUID → Int) (s : Limiters) : LimiterAction → Option Limiters
  | .tick later => if s.now ≤ later then some { s with now := later } else none
  | .start tenantID => some { s with counting := ⟨tenantID, s.now⟩ :: s.counting }
  | .incr c =>
    if c ∈ s.counting then
      let (count, counters) := s.counters.incr c.key s.now
      some { s with
        counters
        counting := s.counting.erase c
        -- Only the first call of the second sets the expiry.
        expiring := if count == 1 then (c, s.answer limits c) :: s.expiring else s.expiring }
    else none
  | .expire c answer =>
    if (c, answer) ∈ s.expiring then
      some { s with
        counters := s.counters.expire c.key s.now (2 * second)
        expiring := s.expiring.erase (c, answer) }
    else none

/-- The calls that return in a step, with their answers. -/
def returned (limits : UUID → Int) (e : Step Limiters LimiterAction) : Option (AllowCall × Bool) :=
  match e.label with
  | .incr c =>
    if (e.pre.counters.incr c.key e.pre.now).1 == 1 then none
    else some (c, e.pre.answer limits c)
  | .expire c answer => some (c, answer)
  | _ => none

/-- Any interleaving of calls, in which no command fails. -/
def Runs (limits : UUID → Int) (past : List (Step Limiters LimiterAction)) (s : Limiters) : Prop :=
  ∃ start, Run (fun s a s' => s.step? limits a = some s') (init start) past s

end Limiters

end Sluice
