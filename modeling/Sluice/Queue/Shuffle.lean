import Sluice.Memory.Slice
import Sluice.Queue.Dequeue

/-! `weightedShuffle` round by round, on the memory that it shares with its caller. -/

namespace Sluice

open Memory

/-- The place of the tenant on which a draw falls. -/
def pickIndex (r cum : Int) : List TenantWeight → Option Nat
  | [] => none
  | t :: rest =>
    if r < cum + t.weight then some 0 else (pickIndex r (cum + t.weight) rest).map (· + 1)

/-- The variables of `weightedShuffle` between two rounds. -/
structure Shuffle where
  heap : Heap TenantWeight
  remaining : Slice
  -- Nothing else refers to the slice that is built up, so its values are enough.
  out : List UUID

namespace Shuffle

/-- The tenants that are still to be drawn. -/
def left (s : Shuffle) : List TenantWeight := s.remaining.read s.heap

/-- The copy that is made before the first round. -/
def start (tenants : Slice) (heap : Heap TenantWeight) : Shuffle :=
  let (remaining, heap) := heap.make ⟨0, 0⟩ tenants.length
  { heap := heap.copy remaining tenants, remaining, out := [] }

/--
A round of the loop on the number that `rand.Intn` draws.

There is none after the last tenant, and none if `rand.Intn` cannot draw such a number.
-/
def round? (s : Shuffle) (r : Int) : Option Shuffle :=
  if s.remaining.length = 0 then none
  else if 0 ≤ r ∧ r < totalWeight s.left then
    match pickIndex r 0 s.left with
    | some i =>
      let (remaining, heap) := s.heap.delete s.remaining i
      some { heap, remaining, out := s.out ++ (s.left[i]?.map TenantWeight.id).toList }
    -- A round that reaches no tenant leaves them all for the next one.
    | none => some s
  else none

end Shuffle

end Sluice
