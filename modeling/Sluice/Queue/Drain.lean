import Sluice.Queue.Calls

/-! The operator's `drain`, which goes over the lists while everybody else goes on using them. -/

namespace Sluice

open Transition

/-- The keys that match `queue:*`. -/
def isQueue (key : String) : Bool := "queue:".toList.isPrefixOf key.toList

/-- `DEL`. -/
def Redis.del (key : String) (redis : Redis) : Redis := Function.update redis key []

/-- The command by what it is about to send. -/
inductive DrainStage where
  | scan
  -- The keys left of the last page, and whether the page was the last one of all.
  | llen (key : String) (keys : List String) (last : Bool)
  | del (key : String) (n : Nat) (keys : List String) (last : Bool)
  | finished
  | failed
  deriving DecidableEq

/-- What comes after a key. -/
def DrainStage.next (last : Bool) : List String → DrainStage
  | [] => if last then finished else scan
  | key :: keys => llen key keys last

/-- The command among the callers of the queue. -/
structure Drain where
  queues : Queues
  stage : DrainStage
  totalJobs : Nat
  queueCount : Nat
  -- The keys that have existed ever since the command began, and that no page has contained.
  owed : String → Bool

/-- The command at its beginning. -/
def Drain.start (queues : Queues) : Drain where
  queues := queues
  stage := .scan
  totalJobs := 0
  queueCount := 0
  owed key := isQueue key && !(queues.redis key).isEmpty

/-- What happens next. -/
inductive DrainAction where
  | other (a : QueueAction)
  | scan (keys : List String) (last : Bool)
  | scanFails
  | llen (fails : Bool)
  | del (fails : Bool)
  deriving DecidableEq

namespace Drain

/-- The lists have changed, and keys without a list do not exist. -/
def put (s : Drain) (queues : Queues) : Drain :=
  { s with queues, owed := fun key => s.owed key && !(queues.redis key).isEmpty }

/-- `cmdDrain`, one command to Redis at a time. -/
def step? (s : Drain) : DrainAction → Option Drain
  | .other a => (s.queues.step? a).map s.put
  | .scan keys last =>
    match s.stage with
    | .scan => some
        { s with stage := .next last keys, owed := fun key => s.owed key && !keys.contains key }
    | _ => none
  | .scanFails =>
    match s.stage with
    | .scan => some { s with stage := .failed }
    | _ => none
  | .llen fails =>
    match s.stage with
    | .llen key keys last =>
      let n := (s.queues.redis key).length
      some { s with stage := if fails || n == 0 then .next last keys else .del key n keys last }
    | _ => none
  | .del fails =>
    match s.stage with
    | .del key n keys last =>
      -- A list that could not be deleted is passed over with a warning.
      if fails then some { s with stage := .next last keys }
      else some
        { s.put { s.queues with redis := s.queues.redis.del key } with
          stage := .next last keys
          -- The length is the one from before, whatever has been deleted.
          totalJobs := s.totalJobs + n
          queueCount := s.queueCount + 1 }
    | _ => none

/--
What Redis promises of a page: its keys match, and the last page leaves out no key that has existed
from the beginning to the end of the iteration.

A page may contain keys that other pages have contained, or that do not exist any more.
-/
def Promised (s : Drain) : DrainAction → Prop
  | .scan keys last =>
    (∀ key ∈ keys, isQueue key = true) ∧ (last = true → ∀ key, s.owed key = true → key ∈ keys)
  | _ => True

/-- One step of the command, or of some caller of the queue. -/
def Next (s : Drain) (a : DrainAction) (s' : Drain) : Prop := s.Promised a ∧ s.step? a = some s'

/-- What can be reached from the beginning of the command. -/
def Reaches (queues : Queues) (past : List (Step Drain DrainAction)) (s : Drain) : Prop :=
  Run Next (start queues) past s

end Drain

/-- The command has met an error that it passes over. -/
def DrainAction.errs : DrainAction → Bool
  | llen fails | del fails => fails
  | _ => false

end Sluice
