import Sluice.Api.Limiter
import Sluice.Proofs.Queue
import Sluice.Text.Decimal

/-! A second's counter is never lost while calls of that second still count. -/

namespace Sluice

open Transition

/-- The name of a counter tells its tenant and its second. -/
theorem limitKey_inj {tenantID tenantID' : UUID} {unix unix' : Int}
    (same : limitKey tenantID unix = limitKey tenantID' unix') :
    tenantID = tenantID' ∧ unix = unix' := by
  have texts := congrArg String.toList same
  simp only [limitKey, String.toList_append, List.append_assoc] at texts
  -- The texts of the tenants stand in the same place and have the same length.
  have tails := List.append_cancel_left texts
  obtain ⟨tenants, seconds⟩ := List.append_inj tails (by simp [UUID.length_toString])
  have units := String.toList_injective (List.append_cancel_left seconds)
  exact ⟨UUID.toString_inj (String.toList_injective tenants), Text.toString_inj units⟩

namespace Counters

variable {counters : Counters} {key : String} {now : Time}

/-- Counting under one key leaves the others alone. -/
theorem incr_of_ne {other : String} (apart : other ≠ key) :
    (counters.incr key now).2 other = counters other := by
  simp [incr, set, apart]

/-- So does an expiry. -/
theorem expire_of_ne {other : String} {ttl : Time} (apart : other ≠ key) :
    counters.expire key now ttl other = counters other := by
  simp [expire, set, apart]

/-- What is found under a key that has been counted `n` times and stays until a deadline. -/
inductive Counts (n : Nat) (deadline : Time) : Option Counter → Prop where
  | none (fresh : n = 0) : Counts n deadline none
  | some {counter : Counter} (counted : 0 < n) (value : counter.value = n)
      (stays : ∀ expiry ∈ counter.expiresAt, deadline ≤ expiry) : Counts n deadline (some counter)

variable {n : Nat} {deadline : Time}

/-- Before the deadline the counter has not disappeared. -/
theorem Counts.live (counts : Counts n deadline (counters key)) (early : now < deadline) :
    counters.live key now = counters key := by
  unfold Counters.live
  generalize counters key = found at counts ⊢
  cases counts with
  | none => rfl
  | @some counter _ _ stays =>
    cases set : counter.expiresAt with
    | none => simp [set]
    | some expiry =>
      have late := stays expiry set
      have lives : now < expiry := by lia
      simp [set, lives]

/-- `INCR` counts one more. -/
theorem Counts.incr (counts : Counts n deadline (counters key)) (early : now < deadline) :
    (counters.incr key now).1 = n + 1 ∧
      Counts (n + 1) deadline ((counters.incr key now).2 key) := by
  simp only [Counters.incr, Counters.set, if_true, counts.live early]
  generalize counters key = found at counts ⊢
  cases counts with
  | none fresh =>
    rw [fresh]
    exact ⟨rfl, .some Nat.one_pos rfl (by simp)⟩
  | some _ value stays =>
    rw [Option.getD_some, value]
    exact ⟨rfl, .some (Nat.succ_pos n) rfl stays⟩

/-- `EXPIRE` keeps the count if it keeps the counter up to the deadline. -/
theorem Counts.expire {ttl : Time} (counts : Counts n deadline (counters key))
    (early : now < deadline) (covers : deadline ≤ now + ttl) :
    Counts n deadline (counters.expire key now ttl key) := by
  simp only [Counters.expire, Counters.set, if_true, counts.live early]
  generalize counters key = found at counts ⊢
  cases counts with
  | none fresh => exact .none fresh
  | some counted value =>
    refine .some counted value ?_
    intro expiry is
    cases is
    exact covers

end Counters

/-- Whether a call is a tenant's and has read the clock within one second. -/
def AllowCall.within (tenantID : UUID) (unix : Int) (c : AllowCall) : Bool :=
  c.tenantID == tenantID && c.read / second == unix

theorem AllowCall.within_iff {c : AllowCall} {tenantID : UUID} {unix : Int} :
    c.within tenantID unix = true ↔ c.tenantID = tenantID ∧ c.read / second = unix := by
  simp [AllowCall.within]

/-- The calls of one second are those that count under its key. -/
theorem AllowCall.key_eq_iff {c : AllowCall} {tenantID : UUID} {unix : Int} :
    c.key = limitKey tenantID unix ↔ c.within tenantID unix = true := by
  rw [AllowCall.within_iff]
  constructor
  · exact limitKey_inj
  · intro ⟨tenant, unit⟩
    rw [AllowCall.key, tenant, unit]

namespace Limiters

/-- The call that starts in a step. -/
def begins (e : Step Limiters LimiterAction) : Option AllowCall :=
  match e.label with
  | .start tenantID => some ⟨tenantID, e.pre.now⟩
  | _ => none

/-- The call that counts in a step. -/
def counts (e : Step Limiters LimiterAction) : Option AllowCall :=
  match e.label with
  | .incr c => some c
  | _ => none

/-- The `INCR` of a step comes less than a second after its call has read the clock. -/
def Prompt (e : Step Limiters LimiterAction) : Prop :=
  ∀ c ∈ counts e, e.pre.now < c.read + second

instance : DecidablePred Prompt := fun e =>
  inferInstanceAs (Decidable (∀ c ∈ counts e, e.pre.now < c.read + second))

/-- How many of a tenant's calls have read the clock within one second. -/
def begun (tenantID : UUID) (unix : Int) (past : List (Step Limiters LimiterAction)) : Nat :=
  (past.filterMap begins).countP (AllowCall.within tenantID unix)

/-- How many of these have counted. -/
def counted (tenantID : UUID) (unix : Int) (past : List (Step Limiters LimiterAction)) : Nat :=
  (past.filterMap counts).countP (AllowCall.within tenantID unix)

/-- Whether an answer allows a call of one second. -/
def passes (tenantID : UUID) (unix : Int) (a : AllowCall × Bool) : Bool :=
  a.1.within tenantID unix && a.2

/-- How many of a second's calls have returned true. -/
def passed (limits : UUID → Int) (tenantID : UUID) (unix : Int)
    (past : List (Step Limiters LimiterAction)) : Nat :=
  (past.filterMap (returned limits)).countP (passes tenantID unix)

/-- No call of the second is under way. -/
def Settled (tenantID : UUID) (unix : Int) (s : Limiters) : Prop :=
  (∀ c ∈ s.counting, c.within tenantID unix = false) ∧
    ∀ a ∈ s.expiring, a.1.within tenantID unix = false

instance (tenantID : UUID) (unix : Int) (s : Limiters) : Decidable (s.Settled tenantID unix) :=
  inferInstanceAs (Decidable (_ ∧ _))

/-- What a step does. -/
inductive Moves (limits : UUID → Int) (s : Limiters) : LimiterAction → Limiters → Prop where
  | tick {later : Time} (onward : s.now ≤ later) :
      Moves limits s (.tick later) { s with now := later }
  | start (tenantID : UUID) :
      Moves limits s (.start tenantID) { s with counting := ⟨tenantID, s.now⟩ :: s.counting }
  | incr {c : AllowCall} (waits : c ∈ s.counting) :
      Moves limits s (.incr c)
        { s with
          counters := (s.counters.incr c.key s.now).2
          counting := s.counting.erase c
          expiring := if (s.counters.incr c.key s.now).1 == 1 then
            (c, s.answer limits c) :: s.expiring else s.expiring }
  | expire {c : AllowCall} {answer : Bool} (waits : (c, answer) ∈ s.expiring) :
      Moves limits s (.expire c answer)
        { s with
          counters := s.counters.expire c.key s.now (2 * second)
          expiring := s.expiring.erase (c, answer) }

variable {limits : UUID → Int} {s s' : Limiters} {a : LimiterAction}

/-- Every step is one of these. -/
theorem moves (made : s.step? limits a = some s') : s.Moves limits a s' := by
  unfold step? at made
  cases a with
  | tick later =>
    dsimp only at made
    split at made
    · rename_i onward
      cases made
      exact .tick onward
    · cases made
  | start tenantID =>
    cases made
    exact .start tenantID
  | incr c =>
    dsimp only at made
    split at made
    · rename_i waits
      cases made
      exact .incr waits
    · cases made
  | expire c answer =>
    dsimp only at made
    split at made
    · rename_i waits
      cases made
      exact .expire waits
    · cases made

/-- A call that no other call interrupts answers and counts as `allow` does. -/
theorem allow_run (limits : UUID → Int) (s : Limiters) (tenantID : UUID) {d : LimiterDraw}
    (counts : d.incrFails = false) (expires : d.expireFails = false) (reads : s.now ≤ d.now)
    (sends : d.now ≤ d.incrAt) (sets : d.incrAt ≤ d.expireAt) :
    ∃ past s' answer, Run (fun s a s' => s.step? limits a = some s') s past s' ∧
      past.filterMap (returned limits) = [(⟨tenantID, d.now⟩, answer)] ∧
      allow tenantID (limits tenantID) d s.counters = (some answer, s'.counters) := by
  generalize allowed : decide ((s.counters.incr (limitKey tenantID (d.now / second)) d.incrAt).1 ≤
    limits tenantID) = result
  have answered (counting : List AllowCall) (expiring : List (AllowCall × Bool)) :
      answer limits ⟨tenantID, d.now⟩ ⟨d.incrAt, s.counters, counting, expiring⟩ = result := allowed
  by_cases first : (s.counters.incr (limitKey tenantID (d.now / second)) d.incrAt).1 = 1
  · -- The first call of the second sets the expiry before it returns.
    rw [first] at allowed
    refine ⟨_, _, result, run_of_some (step? limits) [.tick d.now, .start tenantID,
      .tick d.incrAt, .incr ⟨tenantID, d.now⟩, .tick d.expireAt,
      .expire ⟨tenantID, d.now⟩ result] s ?_, ?_, ?_⟩
    all_goals simp [trace, step?, List.filterMap_cons, returned, allow, answered, AllowCall.key,
      counts, expires, reads, sends, sets, first, allowed]
  · refine ⟨_, _, result, run_of_some (step? limits) [.tick d.now, .start tenantID,
      .tick d.incrAt, .incr ⟨tenantID, d.now⟩] s ?_, ?_, ?_⟩
    all_goals simp [trace, step?, List.filterMap_cons, returned, allow, answered, AllowCall.key,
      counts, reads, sends, first, allowed]

/-- The calls under way have read the clock in the past. -/
def ReadsPast (s : Limiters) : Prop :=
  (∀ c ∈ s.counting, c.read ≤ s.now) ∧ ∀ a ∈ s.expiring, a.1.read ≤ s.now

theorem ReadsPast.step (before : s.ReadsPast) (made : s.step? limits a = some s') :
    s'.ReadsPast := by
  obtain ⟨waiting, ending⟩ := before
  cases moves made with
  | tick onward =>
    exact ⟨fun c listed => (waiting c listed).trans onward,
      fun a listed => (ending a listed).trans onward⟩
  | start tenantID =>
    refine ⟨fun c listed => ?_, ending⟩
    rcases List.mem_cons.mp listed with rfl | listed
    · exact le_rfl
    · exact waiting c listed
  | incr waits =>
    refine ⟨fun c listed => waiting c (List.mem_of_mem_erase listed), fun a listed => ?_⟩
    dsimp only at listed
    split at listed
    · -- The call that counts first goes on to set the expiry.
      rcases List.mem_cons.mp listed with rfl | listed
      · exact waiting _ waits
      · exact ending a listed
    · exact ending a listed
  | expire waits =>
    exact ⟨waiting, fun a listed => ending a (List.mem_of_mem_erase listed)⟩

/-- The account of one second of one tenant. -/
structure Window (limits : UUID → Int) (tenantID : UUID) (unix : Int)
    (past : List (Step Limiters LimiterAction)) (s : Limiters) : Prop where
  -- Every call that has started has counted, or will.
  starts : begun tenantID unix past =
    counted tenantID unix past + s.counting.countP (AllowCall.within tenantID unix)
  -- As many calls as the limit admits pass, with those that have still to set the expiry.
  passing : passed limits tenantID unix past + s.expiring.countP (passes tenantID unix) =
    min (counted tenantID unix past) (limits tenantID).toNat
  -- Up to the end of the next second the counter stands at the number of calls.
  counter : s.now < (unix + 2) * second →
    Counters.Counts (counted tenantID unix past) ((unix + 2) * second)
      (s.counters (limitKey tenantID unix))

namespace Window

variable {tenantID : UUID} {unix : Int} {past : List (Step Limiters LimiterAction)}

/-- The calls of a second are over before its counter can disappear. -/
theorem early {c : AllowCall} {now : Time} (own : c.within tenantID unix = true)
    (prompt : now < c.read + second) : now < (unix + 2) * second := by
  have unit := (AllowCall.within_iff.mp own).2
  simp only [second] at *
  lia

/-- A counter that is set to expire stays until the end of the next second. -/
theorem covers {c : AllowCall} {now : Time} (own : c.within tenantID unix = true)
    (read : c.read ≤ now) : (unix + 2) * second ≤ now + 2 * second := by
  have unit := (AllowCall.within_iff.mp own).2
  simp only [second] at *
  lia

theorem begun_snoc (e : Step Limiters LimiterAction) : begun tenantID unix (past ++ [e]) =
    begun tenantID unix past + (begins e).toList.countP (AllowCall.within tenantID unix) := by
  rw [begun, filterMap_snoc, List.countP_append, ← begun]

theorem counted_snoc (e : Step Limiters LimiterAction) : counted tenantID unix (past ++ [e]) =
    counted tenantID unix past + (counts e).toList.countP (AllowCall.within tenantID unix) := by
  rw [counted, filterMap_snoc, List.countP_append, ← counted]

theorem passed_snoc (e : Step Limiters LimiterAction) :
    passed limits tenantID unix (past ++ [e]) = passed limits tenantID unix past +
      (returned limits e).toList.countP (passes tenantID unix) := by
  rw [passed, filterMap_snoc, List.countP_append, ← passed]

/-- A call that counts returns at once or sets the expiry first, with the same answer. -/
theorem answered (tenantID : UUID) (unix : Int) {c : AllowCall} {s' : Limiters}
    (move : s.Moves limits (.incr c) s') :
    (returned limits ⟨s, .incr c, s'⟩).toList.countP (passes tenantID unix) +
        s'.expiring.countP (passes tenantID unix) =
      s.expiring.countP (passes tenantID unix) +
        if passes tenantID unix (c, s.answer limits c) then 1 else 0 := by
  cases move
  -- Only the first call of a second goes on to set the expiry.
  by_cases first : (s.counters.incr c.key s.now).1 = 1
  · simp [returned, first, List.countP_cons]
  · simp [returned, first, List.countP_cons, Nat.add_comm]

/-- A call that counts is no longer about to. -/
theorem starts_incr {c : AllowCall} (account : Window limits tenantID unix past s)
    (waits : c ∈ s.counting) {s' : Limiters} (move : s.Moves limits (.incr c) s') :
    begun tenantID unix (past ++ [⟨s, .incr c, s'⟩]) =
      counted tenantID unix (past ++ [⟨s, .incr c, s'⟩]) +
        s'.counting.countP (AllowCall.within tenantID unix) := by
  have pending := (List.perm_cons_erase waits).countP_eq (AllowCall.within tenantID unix)
  have started := account.starts
  cases move
  simp only [begun_snoc, counted_snoc, begins, counts, Option.toList_none, Option.toList_some,
    List.countP_nil, List.countP_cons] at pending ⊢
  omega

/-- A call of the second counts. -/
theorem incr_own {c : AllowCall} (account : Window limits tenantID unix past s)
    (waits : c ∈ s.counting) (prompt : s.now < c.read + second)
    (own : c.within tenantID unix = true) {s' : Limiters} (move : s.Moves limits (.incr c) s') :
    Window limits tenantID unix (past ++ [⟨s, .incr c, s'⟩]) s' := by
  have later : counted tenantID unix (past ++ [⟨s, .incr c, s'⟩]) =
      counted tenantID unix past + 1 := by
    simp [counted_snoc, counts, own]
  -- The counter stands at the number of calls before this one, which the answer depends on.
  have room := early own prompt
  obtain ⟨count, next⟩ := (account.counter room).incr room
  rw [← AllowCall.key_eq_iff.mpr own] at count next
  have passing : passes tenantID unix (c, s.answer limits c) =
      decide (counted tenantID unix past + 1 ≤ limits tenantID) := by
    simp [passes, own, answer, count, (AllowCall.within_iff.mp own).1]
  refine ⟨account.starts_incr waits move, ?_, fun _ => ?_⟩
  · have answers := answered tenantID unix move
    have allowed := account.passing
    rw [later, passed_snoc]
    simp only [passing, decide_eq_true_eq] at answers
    split at answers <;> omega
  · cases move
    rw [later, ← AllowCall.key_eq_iff.mpr own]
    dsimp only
    exact next

/-- A call of another second or tenant counts. -/
theorem incr_other {c : AllowCall} (account : Window limits tenantID unix past s)
    (waits : c ∈ s.counting) (other : c.within tenantID unix = false) {s' : Limiters}
    (move : s.Moves limits (.incr c) s') :
    Window limits tenantID unix (past ++ [⟨s, .incr c, s'⟩]) s' := by
  have later : counted tenantID unix (past ++ [⟨s, .incr c, s'⟩]) =
      counted tenantID unix past := by
    simp [counted_snoc, counts, other]
  refine ⟨account.starts_incr waits move, ?_, ?_⟩
  · have answers := answered tenantID unix move
    have allowed := account.passing
    rw [later, passed_snoc]
    simp only [passes, other, Bool.false_and, Bool.false_eq_true, if_false] at answers allowed ⊢
    omega
  · -- The call counts under another key.
    have apart : limitKey tenantID unix ≠ c.key := fun same =>
      Bool.false_ne_true (other.symm.trans (AllowCall.key_eq_iff.mp same.symm))
    intro early
    rw [later]
    cases move
    dsimp only at early ⊢
    rw [Counters.incr_of_ne apart]
    exact account.counter early

/-- A call sets the expiry and returns. -/
theorem expire {c : AllowCall} {answer : Bool} (account : Window limits tenantID unix past s)
    (waits : (c, answer) ∈ s.expiring) (read : c.read ≤ s.now) {s' : Limiters}
    (move : s.Moves limits (.expire c answer) s') :
    Window limits tenantID unix (past ++ [⟨s, .expire c answer, s'⟩]) s' := by
  have pending := (List.perm_cons_erase waits).countP_eq (passes tenantID unix)
  rw [List.countP_cons] at pending
  have later : counted tenantID unix (past ++ [⟨s, .expire c answer, s'⟩]) =
      counted tenantID unix past := by
    simp [counted_snoc, counts]
  have started := account.starts
  have allowed := account.passing
  cases move
  refine ⟨?_, ?_, ?_⟩
  · rw [later, begun_snoc]
    simp only [begins, Option.toList_none, List.countP_nil, Nat.add_zero]
    exact started
  · -- The answer is given now instead of later.
    rw [later, passed_snoc]
    simp only [returned, Option.toList_some, List.countP_singleton]
    omega
  · intro early
    rw [later]
    dsimp only at early ⊢
    by_cases own : c.within tenantID unix = true
    · have stays := account.counter early
      rw [AllowCall.key_eq_iff.mpr own]
      exact stays.expire early (covers own read)
    · rw [Counters.expire_of_ne fun same => own (AllowCall.key_eq_iff.mp same.symm)]
      exact account.counter early

/-- The account is kept by every step that counts promptly. -/
theorem step (account : Window limits tenantID unix past s) (reads : s.ReadsPast)
    (made : s.step? limits a = some s') (prompt : Prompt ⟨s, a, s'⟩) :
    Window limits tenantID unix (past ++ [⟨s, a, s'⟩]) s' := by
  cases moves made with
  | tick onward =>
    obtain ⟨starts, passing, counter⟩ := account
    refine ⟨?_, ?_, ?_⟩
    · simpa [begun_snoc, counted_snoc, begins, counts] using starts
    · simpa [passed_snoc, counted_snoc, returned, counts] using passing
    · intro early
      simpa [counted_snoc, counts] using counter (lt_of_le_of_lt onward early)
  | start id =>
    obtain ⟨starts, passing, counter⟩ := account
    refine ⟨?_, ?_, ?_⟩
    · simp only [begun_snoc, counted_snoc, begins, counts, Option.toList_none, Option.toList_some,
        List.countP_nil, List.countP_cons]
      omega
    · simpa [passed_snoc, counted_snoc, returned, counts] using passing
    · simpa [counted_snoc, counts] using counter
  | @incr c waits =>
    cases own : c.within tenantID unix with
    | true => exact account.incr_own waits (prompt c rfl) own (.incr waits)
    | false => exact account.incr_other waits own (.incr waits)
  | expire waits => exact account.expire waits (reads.2 _ waits) (.expire waits)

end Window

/-- The account of every second holds in every run that counts promptly. -/
theorem Runs.window {past : List (Step Limiters LimiterAction)} (run : Runs limits past s)
    (prompt : ∀ e ∈ past, Prompt e) (tenantID : UUID) (unix : Int) :
    Window limits tenantID unix past s := by
  obtain ⟨start, run⟩ := run
  -- That the readings lie in the past holds in any run, and the account needs it.
  suffices both : s.ReadsPast ∧ ((∀ e ∈ past, Prompt e) → Window limits tenantID unix past s) from
    both.2 prompt
  refine run.history (fun past s => s.ReadsPast ∧
    ((∀ e ∈ past, Prompt e) → Window limits tenantID unix past s)) ⟨?_, ?_⟩ ?_
  · simp [ReadsPast, init]
  · intro _
    exact ⟨rfl, by simp [passed, counted, init], fun _ => .none rfl⟩
  · intro past s a s' _ held made
    refine ⟨held.1.step made, fun prompt => ?_⟩
    exact (held.2 fun e listed => prompt e (List.mem_append_left _ listed)).step held.1 made
      (prompt _ (by simp))

/-- No second has more calls that return true than the limit. -/
theorem Runs.passed_le {past : List (Step Limiters LimiterAction)} (run : Runs limits past s)
    (prompt : ∀ e ∈ past, Prompt e) {tenantID : UUID} (limited : 0 ≤ limits tenantID) (unix : Int) :
    (passed limits tenantID unix past : Int) ≤ limits tenantID := by
  have allows := (run.window prompt tenantID unix).passing
  omega

/-- Once its calls have returned, a second has as many that return true as the limit admits. -/
theorem Runs.passed_eq {past : List (Step Limiters LimiterAction)} (run : Runs limits past s)
    (prompt : ∀ e ∈ past, Prompt e) {tenantID : UUID} (limited : 0 ≤ limits tenantID) {unix : Int}
    (settled : s.Settled tenantID unix) :
    (passed limits tenantID unix past : Int) =
      min (begun tenantID unix past : Int) (limits tenantID) := by
  obtain ⟨starts, allows, -⟩ := run.window prompt tenantID unix
  -- No call of the second is left in either list.
  have counting : s.counting.countP (AllowCall.within tenantID unix) = 0 :=
    List.countP_eq_zero.mpr fun c listed => by simp [settled.1 c listed]
  have expiring : s.expiring.countP (passes tenantID unix) = 0 :=
    List.countP_eq_zero.mpr fun a listed => by simp [passes, settled.2 a listed]
  omega

/-- Entries that are of one of two kinds number at most as many as the two kinds together. -/
theorem countP_le_add {α : Type} {p q r : α → Bool}
    (covers : ∀ a, p a = true → q a = true ∨ r a = true) (entries : List α) :
    entries.countP p ≤ entries.countP q + entries.countP r := by
  induction entries with
  | nil => exact Nat.le_refl 0
  | cons a entries ih =>
    have kinds := covers a
    simp only [List.countP_cons]
    split
    · rename_i counts
      rcases kinds counts with first | second
      · rw [if_pos first]
        omega
      · rw [if_pos second]
        omega
    · omega

/-- How many of a tenant's calls return true and have read the clock within a second of a time. -/
def passedFrom (limits : UUID → Int) (tenantID : UUID) (opens : Time)
    (past : List (Step Limiters LimiterAction)) : Nat :=
  (past.filterMap (returned limits)).countP fun a =>
    a.1.tenantID == tenantID && decide (opens ≤ a.1.read ∧ a.1.read ≤ opens + second) && a.2

/-- An interval of a second's length meets two seconds of the clock. -/
theorem passedFrom_le (limits : UUID → Int) (tenantID : UUID) (opens : Time)
    (past : List (Step Limiters LimiterAction)) :
    passedFrom limits tenantID opens past ≤ passed limits tenantID (opens / second) past +
      passed limits tenantID (opens / second + 1) past := by
  apply countP_le_add
  intro a counts
  simp only [Bool.and_eq_true, beq_iff_eq, decide_eq_true_eq] at counts
  obtain ⟨⟨tenant, after, before⟩, allowed⟩ := counts
  have units : a.1.read / second = opens / second ∨ a.1.read / second = opens / second + 1 := by
    simp only [second] at *
    lia
  simpa [passes, AllowCall.within, tenant, allowed] using units

/--
Of the calls that read the clock within one second exactly as many pass as the limit admits.

Within any interval of a second's length at most twice as many pass.
-/
theorem allow_limited {past : List (Step Limiters LimiterAction)} (run : Runs limits past s)
    (prompt : ∀ e ∈ past, Prompt e) (tenantID : UUID) (limited : 0 ≤ limits tenantID) :
    (∀ unix, s.Settled tenantID unix → (passed limits tenantID unix past : Int) =
      min (begun tenantID unix past : Int) (limits tenantID)) ∧
    ∀ opens, (passedFrom limits tenantID opens past : Int) ≤ 2 * limits tenantID := by
  refine ⟨fun unix => run.passed_eq prompt limited, fun opens => ?_⟩
  -- Each of the two seconds that the interval meets has its own limit.
  have meets := passedFrom_le limits tenantID opens past
  have first := run.passed_le prompt limited (opens / second)
  have next := run.passed_le prompt limited (opens / second + 1)
  omega

/-- Two replicas serve a tenant at the same time, and a third call follows in the next second. -/
def threeCalls : List LimiterAction :=
  [.start 7, .start 7, .incr ⟨7, 0⟩, .incr ⟨7, 0⟩, .expire ⟨7, 0⟩ true, .tick second, .start 7,
    .incr ⟨7, second⟩, .expire ⟨7, second⟩ true]

/-- A run in which a tenant with a limit of one sends three requests. -/
theorem allow_limited_three : ∃ past s, Runs (fun _ => 1) past s ∧ (∀ e ∈ past, Prompt e) ∧
    begun 7 0 past = 2 ∧ (passed (fun _ => 1) 7 0 past : Int) = min (begun 7 0 past : Int) 1 ∧
    ∀ opens, (passedFrom (fun _ => 1) 7 opens past : Int) ≤ 2 * 1 := by
  have run := run_of_some (step? fun _ => 1) threeCalls (init 0) (by decide +kernel)
  have prompt : ∀ e ∈ trace (fun s a => (step? (fun _ => 1) s a).getD s) (init 0) threeCalls,
      Prompt e := by
    decide +kernel
  have both := allow_limited ⟨0, run⟩ prompt 7 (by decide)
  exact ⟨_, _, ⟨0, run⟩, prompt, by decide +kernel, both.1 0 (by decide +kernel), both.2⟩

end Limiters

end Sluice
