import Mathlib.Order.Bounds.Basic
import Sluice.Proofs.NextRun

/-! Schedules are created in their own time zone and fired in that of the server. -/

namespace Sluice

open Relational

/-- The activation that an expression answers with is the first of those its search covers. -/
structure FirstSpec (env : Env) (upcoming : String → env.Zone → Time → Time → Prop) : Prop
    extends NextSpec env upcoming where
  first : ∀ {cron next}, env.parse cron = some next → ∀ {zone now instant},
    upcoming cron zone now instant → next zone now ≤ instant

/--
The first activation in either of two zones is one in both of them.

The relation is that of one expression and one instant, from which the activations are searched.
-/
def SharesFirst {Zone : Type} (upcoming : Zone → Time → Prop) (zone zone' : Zone) : Prop :=
  ∀ instant, upcoming zone instant ∨ upcoming zone' instant →
    (∀ earlier < instant, ¬ upcoming zone earlier ∧ ¬ upcoming zone' earlier) →
    upcoming zone instant ∧ upcoming zone' instant

/--
One zone has no activation, and the first one in the other is at the zero time.

This needs an instant before the year one, and then the two answers cannot be told apart.
-/
def MissesZero {Zone : Type} (upcoming : Zone → Time → Prop) (zone zone' : Zone) : Prop :=
  (∀ instant, ¬ upcoming zone instant) ∧ IsLeast {instant | upcoming zone' instant} zeroTime

/-- Sharing the first activation does not depend on the order of the zones. -/
theorem SharesFirst.symm {Zone : Type} {upcoming : Zone → Time → Prop} {zone zone' : Zone}
    (shares : SharesFirst upcoming zone zone') : SharesFirst upcoming zone' zone := by
  intro instant either first
  exact (shares instant either.symm fun earlier before => (first earlier before).symm).symm

/-- The first activation in one zone is one in the other, unless that zone has an earlier one. -/
theorem SharesFirst.reaches {Zone : Type} {upcoming : Zone → Time → Prop} {zone zone' : Zone}
    (shares : SharesFirst upcoming zone zone') {instant : Time}
    (least : IsLeast {instant | upcoming zone instant} instant)
    (before : ∀ other, upcoming zone' other → instant ≤ other) : upcoming zone' instant := by
  -- Nothing earlier is an activation in either zone.
  refine (shares instant (.inl least.1) fun earlier lt => ⟨fun found => ?_, fun found => ?_⟩).2
  · exact absurd (least.2 found) (Int.not_le.mpr lt)
  · exact absurd (before earlier found) (Int.not_le.mpr lt)

section Answers

variable {env : Env} {upcoming : String → env.Zone → Time → Time → Prop} {cron : String}
  {next : env.Zone → Time → Time} {zone zone' : env.Zone} {now : Time}

/-- In a zone with an activation the answer is the first one. -/
theorem FirstSpec.isLeast (spec : FirstSpec env upcoming) (parsed : env.parse cron = some next)
    (any : ∃ instant, upcoming cron zone now instant) :
    IsLeast {instant | upcoming cron zone now instant} (next zone now) :=
  ⟨spec.found parsed zone now any, fun _ listed => spec.first parsed listed⟩

/-- A zone that shares its first activation with another one has one only if the other does. -/
theorem FirstSpec.any_of_shares (spec : FirstSpec env upcoming)
    (parsed : env.parse cron = some next)
    (shares : SharesFirst (fun zone => upcoming cron zone now) zone zone')
    (any : ∃ instant, upcoming cron zone now instant) :
    ∃ instant, upcoming cron zone' now instant := by
  -- With none to come before it, the first one of this zone is shared.
  by_contra none
  exact none ⟨_, shares.reaches (spec.isLeast parsed any) fun other found =>
    absurd ⟨other, found⟩ none⟩

/-- Zones that share their first activation have the same answer. -/
theorem FirstSpec.eq_of_shares (spec : FirstSpec env upcoming)
    (parsed : env.parse cron = some next)
    (shares : SharesFirst (fun zone => upcoming cron zone now) zone zone') :
    next zone now = next zone' now := by
  by_cases any : ∃ instant, upcoming cron zone now instant
  · have least := spec.isLeast parsed any
    have least' := spec.isLeast parsed (spec.any_of_shares parsed shares any)
    -- The earlier of the two answers is an activation in both zones.
    rcases Int.le_total (next zone now) (next zone' now) with le | le
    · have both := shares.reaches least fun other found => Int.le_trans le (least'.2 found)
      exact Int.le_antisymm le (least'.2 both)
    · have both := shares.symm.reaches least' fun other found => Int.le_trans le (least.2 found)
      exact Int.le_antisymm (least.2 both) le
  · -- Without an activation both answers are the zero time.
    have any' : ¬ ∃ instant, upcoming cron zone' now instant := fun found =>
      any (spec.any_of_shares parsed shares.symm found)
    rw [spec.missing parsed zone now any, spec.missing parsed zone' now any']

/-- A first activation in either zone is the answer in that zone. -/
theorem FirstSpec.eq_of_first (spec : FirstSpec env upcoming) (parsed : env.parse cron = some next)
    {instant : Time} (found : upcoming cron zone now instant)
    (first : ∀ earlier < instant, ¬ upcoming cron zone now earlier) : next zone now = instant := by
  have least := spec.isLeast parsed ⟨instant, found⟩
  refine Int.le_antisymm (least.2 found) (Int.not_lt.mp fun lt => ?_)
  exact first _ lt least.1

/-- Two zones have the same answer exactly if they share their first activation. -/
theorem FirstSpec.eq_iff (spec : FirstSpec env upcoming) (parsed : env.parse cron = some next)
    (zone zone' : env.Zone) (now : Time) :
    next zone now = next zone' now ↔
      SharesFirst (fun zone => upcoming cron zone now) zone zone' ∨
        MissesZero (fun zone => upcoming cron zone now) zone zone' ∨
        MissesZero (fun zone => upcoming cron zone now) zone' zone := by
  constructor
  · intro same
    by_cases any : ∃ instant, upcoming cron zone now instant <;>
      by_cases any' : ∃ instant, upcoming cron zone' now instant
    · left
      have least := spec.isLeast parsed any
      have least' := spec.isLeast parsed any'
      -- Whichever zone the first activation is in, it is the common answer.
      rintro instant (found | found) first
      · have answer := spec.eq_of_first parsed found fun earlier lt => (first earlier lt).1
        exact ⟨found, by rw [← answer, same]; exact least'.1⟩
      · have answer := spec.eq_of_first parsed found fun earlier lt => (first earlier lt).2
        exact ⟨by rw [← answer, ← same]; exact least.1, found⟩
    · -- The answer for the other zone is the zero time.
      right; right
      have least := spec.isLeast parsed any
      rw [same, spec.missing parsed zone' now any'] at least
      exact ⟨fun instant found => any' ⟨instant, found⟩, least⟩
    · right; left
      have least' := spec.isLeast parsed any'
      rw [← same, spec.missing parsed zone now any] at least'
      exact ⟨fun instant found => any ⟨instant, found⟩, least'⟩
    · -- There is nothing to share.
      left
      rintro instant (found | found) -
      · exact absurd ⟨instant, found⟩ any
      · exact absurd ⟨instant, found⟩ any'
  · -- Without an activation the answer is the zero time, which may also be the other's first one.
    have zero : ∀ {zone zone'}, MissesZero (fun zone => upcoming cron zone now) zone zone' →
        next zone now = next zone' now := by
      rintro zone zone' ⟨none, least⟩
      rw [spec.missing parsed zone now fun ⟨instant, found⟩ => none instant found]
      exact (spec.isLeast parsed ⟨_, least.1⟩).unique least |>.symm
    rintro (shares | misses | misses)
    · exact spec.eq_of_shares parsed shares
    · exact zero misses
    · exact (zero misses).symm

end Answers

/--
A firing stores the instant that a creation of the same schedule at the same time stores, exactly if
the time zones of the schedule and of the server share the first activation after that time.
-/
theorem firing_agrees_iff (env : ApiEnv) {upcoming : String → env.Zone → Time → Time → Prop}
    (spec : FirstSpec env.toEnv upcoming) (t : Tenant) (body : Option CreateScheduleRequest)
    (d : Draw) (s : ApiState) (sched : Schedule)
    (created : (handleCreateSchedule env t body d s).1 = ⟨201, .schedule sched⟩)
    (fired row : Schedule) (id : UUID) (db : Db)
    (same : fired.cron = sched.cron ∧ fired.timezone = sched.timezone)
    (success : (fire env.toEnv fired id d.now db).1 = true)
    (stored : (fire env.toEnv fired id d.now db).2.schedules.find? fired.id = some row) :
    ∃ zone, env.loadLocation fired.timezone = some zone ∧
      (row.nextRunAt = sched.nextRunAt ↔
        SharesFirst (fun zone => upcoming fired.cron zone d.now) zone env.localZone ∨
          MissesZero (fun zone => upcoming fired.cron zone d.now) zone env.localZone ∨
          MissesZero (fun zone => upcoming fired.cron zone d.now) env.localZone zone) := by
  obtain ⟨⟨zone, next, located, parsed, first⟩, -⟩ := handleCreateSchedule_created created
  obtain ⟨next', parsed', written⟩ := fire_stores success
  -- Both paths parse the same expression, but only the creation looks at the time zone.
  rw [← same.1, parsed'] at parsed
  cases parsed
  refine ⟨zone, by rw [same.2, located], ?_⟩
  -- The two instants are the answers of one expression in two zones.
  rw [stored] at written
  obtain ⟨old, -, rfl⟩ := Option.map_eq_some_iff.mp written.symm
  rw [first, eq_comm]
  exact spec.eq_iff parsed' zone env.localZone d.now

/-- The activation of "0 9 * * *" that follows an instant, in a zone so many minutes ahead. -/
def nextNine (ahead : Int) (now : Time) : Time :=
  ((now + (ahead - 540) * minute) / day + 1) * day - (ahead - 540) * minute

/-- The instants after another one at which the clocks of a zone show nine. -/
def NineAfter (ahead : Int) (now instant : Time) : Prop :=
  now < instant ∧ day ∣ instant + (ahead - 540) * minute

/-- Nine o'clock comes every day. -/
theorem nineAfter_nextNine (ahead : Int) (now : Time) :
    NineAfter ahead now (nextNine ahead now) := by
  refine ⟨?_, (now + (ahead - 540) * minute) / day + 1, ?_⟩
  · simp only [nextNine, day, minute, second]
    lia
  · simp only [nextNine]
    lia

/-- No clock shows nine before the next time that it does. -/
theorem NineAfter.nextNine_le {ahead : Int} {now instant : Time}
    (found : NineAfter ahead now instant) : nextNine ahead now ≤ instant := by
  obtain ⟨after, days, whole⟩ := found
  simp only [nextNine, day, minute, second] at after whole ⊢
  lia

/-- A server in universal time that knows Japan, and the expression for nine o'clock every day. -/
def ApiEnv.nineDaily : ApiEnv where
  Zone := Int
  localZone := 0
  loadLocation name :=
    if name = "UTC" then some 0 else if name = "Asia/Tokyo" then some 540 else none
  parse expr := if expr = "0 9 * * *" then some nextNine else none
  parseError _ := "expected exactly 5 fields"
  collation a b := decide (a ≤ b)

/-- The server's one expression is answered with the first time at which clocks show nine. -/
theorem firstSpec_nineDaily : FirstSpec ApiEnv.nineDaily.toEnv fun _ => NineAfter := by
  have answers : ∀ {cron next}, ApiEnv.nineDaily.parse cron = some next → next = nextNine := by
    intro cron next parsed
    simp only [ApiEnv.nineDaily] at parsed
    split at parsed <;> cases parsed
    rfl
  exact
    { after := fun found => found.1
      found := fun parsed ahead now _ => answers parsed ▸ nineAfter_nextNine ahead now
      missing := fun _ ahead now none => absurd ⟨_, nineAfter_nextNine ahead now⟩ none
      first := by
        intro cron next parsed ahead now instant found
        exact answers parsed ▸ NineAfter.nextNine_le found }

/-- A template for webhooks. -/
def webhookTemplate : Json :=
  .object (.cons "type" (.string "webhook") (.cons "payload" hookPayload .nil))

/-- A request for a webhook at nine o'clock every day. -/
def nineOClock (timezone : String) : CreateScheduleRequest :=
  ⟨"mail", "0 9 * * *", timezone, some webhookTemplate⟩

/-- The schedule that the request makes. -/
def nineSchedule (timezone : String) (nextRunAt : Time) : Schedule :=
  createdSchedule 1 (nineOClock timezone) webhookTemplate 5 nextRunAt

/-- The tables with just one schedule. -/
def Db.withSchedule (sched : Schedule) : Db := (insertSchedule sched .empty).2

theorem firing_agrees_universal :
    (handleCreateSchedule .nineDaily devTenant (some (nineOClock "UTC")) (.prompt 5 0) .initial).1 =
        ⟨201, .schedule (nineSchedule "UTC" (540 * minute))⟩ ∧
      ∃ row, (fire ApiEnv.nineDaily.toEnv (nineSchedule "UTC" 0) 6 0
        (.withSchedule (nineSchedule "UTC" 0))).2.schedules.find? 5 = some row ∧
        row.nextRunAt = 540 * minute := by
  refine ⟨by decide +kernel,
    { nineSchedule "UTC" 0 with lastRunAt := some 0, nextRunAt := 540 * minute },
    by decide +kernel, ?_⟩
  obtain ⟨zone, located, iff⟩ := firing_agrees_iff .nineDaily firstSpec_nineDaily devTenant
    (some (nineOClock "UTC")) (.prompt 5 0) .initial (nineSchedule "UTC" (540 * minute))
    (by decide +kernel) (nineSchedule "UTC" 0)
    { nineSchedule "UTC" 0 with lastRunAt := some 0, nextRunAt := 540 * minute } 6
    (.withSchedule (nineSchedule "UTC" 0)) ⟨rfl, rfl⟩ (by decide +kernel) (by decide +kernel)
  -- The server is in universal time as well.
  cases located
  exact iff.mpr (.inl fun instant either _ => ⟨either.elim id id, either.elim id id⟩)

theorem firing_disagrees :
    ¬ ∀ (env : ApiEnv) (upcoming : String → env.Zone → Time → Time → Prop),
      FirstSpec env.toEnv upcoming → ∀ t body d s sched,
        (handleCreateSchedule env t body d s).1 = ⟨201, .schedule sched⟩ →
        ∀ fired row id db, fired.cron = sched.cron ∧ fired.timezone = sched.timezone →
          (fire env.toEnv fired id d.now db).1 = true →
          (fire env.toEnv fired id d.now db).2.schedules.find? fired.id = some row →
            row.nextRunAt = sched.nextRunAt := by
  intro agrees
  -- In Japan it is nine already, and the next time is a whole day away.
  have next := agrees _ _ firstSpec_nineDaily devTenant (some (nineOClock "Asia/Tokyo"))
    (.prompt 5 0) .initial (nineSchedule "Asia/Tokyo" day) (by decide +kernel)
    (nineSchedule "Asia/Tokyo" 0)
    { nineSchedule "Asia/Tokyo" 0 with lastRunAt := some 0, nextRunAt := 540 * minute }
    6 (.withSchedule (nineSchedule "Asia/Tokyo" 0)) ⟨rfl, rfl⟩ (by decide +kernel)
    (by decide +kernel)
  exact absurd next (by decide)

end Sluice
