import Sluice.Api.ScheduleHandler
import Sluice.Proofs.Storage.Specs
import Sluice.Scheduler.Passes

/-! When a schedule that is created or fired comes to lie in the future. -/

namespace Sluice

open Relational

/--
What is known of the activations that parsed expressions answer with.

The relation says which instants are activations of an expression in a zone, among those after a
given instant that the search for the next one covers.
-/
structure NextSpec (env : Env) (upcoming : String → env.Zone → Time → Time → Prop) : Prop where
  after : ∀ {cron zone now instant}, upcoming cron zone now instant → now < instant
  found : ∀ {cron next}, env.parse cron = some next → ∀ zone now,
    (∃ instant, upcoming cron zone now instant) → upcoming cron zone now (next zone now)
  missing : ∀ {cron next}, env.parse cron = some next → ∀ zone now,
    (¬ ∃ instant, upcoming cron zone now instant) → next zone now = zeroTime

/--
The activations are whole minutes.

Expressions have no field for seconds, so this holds wherever the offset of the zone is a number of
minutes.
-/
def WholeMinutes (upcoming : Time → Prop) : Prop := ∀ instant, upcoming instant → minute ∣ instant

/-- A schedule lies after an instant, and is not due again within its minute or before. -/
def Schedule.Advanced (now : Time) (s : Schedule) : Prop :=
  now < s.nextRunAt ∧ ∀ later, later / minute ≤ now / minute →
    (getDueSchedules cronBatchSize later).holds s = false

/-- A whole minute after an instant is not due within the minute of that instant. -/
theorem Schedule.advanced_iff {now : Time} {s : Schedule} (whole : minute ∣ s.nextRunAt) :
    s.Advanced now ↔ now < s.nextRunAt := by
  refine ⟨And.left, fun after => ⟨after, fun later early => ?_⟩⟩
  -- An instant in the same minute or an earlier one lies before the next whole minute.
  obtain ⟨minutes, next⟩ := whole
  have undue : ¬ s.nextRunAt ≤ later := by
    rw [next] at after ⊢
    simp only [minute, second] at *
    lia
  simp [getDueSchedules, undue]

/-- An activation is at hand, or the time that stands for a missing one is itself to come. -/
def AtHand (upcoming : Time → Prop) (now : Time) : Prop :=
  (∃ instant, upcoming instant) ∨ now < zeroTime

section

variable {env : Env} {upcoming : String → env.Zone → Time → Time → Prop} {cron : String}
  {next : env.Zone → Time → Time} {zone : env.Zone} {now : Time} {s : Schedule}

/-- The answer of an expression lies ahead exactly if an activation is at hand. -/
theorem NextSpec.later_iff (spec : NextSpec env upcoming) (parsed : env.parse cron = some next)
    (stored : s.nextRunAt = next zone now) :
    now < s.nextRunAt ↔ AtHand (upcoming cron zone now) now := by
  by_cases any : ∃ instant, upcoming cron zone now instant
  · have after := spec.after (spec.found parsed zone now any)
    exact iff_of_true (stored ▸ after) (.inl any)
  · -- Without an activation the search gives up and answers with the zero time.
    have zero : s.nextRunAt = zeroTime := stored.trans (spec.missing parsed zone now any)
    rw [zero]
    exact ⟨.inr, fun later => later.resolve_left any⟩

/-- The answer is a whole minute if the activations are, since the zero time is one. -/
theorem NextSpec.whole (spec : NextSpec env upcoming) (parsed : env.parse cron = some next)
    (whole : WholeMinutes (upcoming cron zone now)) (stored : s.nextRunAt = next zone now) :
    minute ∣ s.nextRunAt := by
  by_cases any : ∃ instant, upcoming cron zone now instant
  · exact stored ▸ whole _ (spec.found parsed zone now any)
  · rw [stored, spec.missing parsed zone now any]
    decide

/-- It advances its schedule in the same cases. -/
theorem NextSpec.advanced_iff (spec : NextSpec env upcoming) (parsed : env.parse cron = some next)
    (whole : WholeMinutes (upcoming cron zone now)) (stored : s.nextRunAt = next zone now) :
    s.Advanced now ↔ AtHand (upcoming cron zone now) now :=
  (Schedule.advanced_iff (spec.whole parsed whole stored)).trans (spec.later_iff parsed stored)

end

/-- The checks refuse a request, or make a schedule whose first run its expression answers. -/
theorem checkSchedule_spec (env : ApiEnv) (t : Tenant) (body : Option CreateScheduleRequest)
    (id : UUID) (now : Time) :
    (∃ message, checkSchedule env t body id now = .error (writeError 400 message)) ∨
    ∃ req jobTemplate loc next, env.loadLocation req.zone = some loc ∧
      env.parse req.cron = some next ∧
      checkSchedule env t body id now =
        .ok (createdSchedule t.id req jobTemplate id (next loc now)) := by
  -- The last case of the checks is the only one that accepts.
  fun_cases checkSchedule env t body id now with
  | case7 req named timed jobTemplate given loc located next parsed =>
    exact .inr ⟨req, jobTemplate, loc, next, located, parsed, rfl⟩
  | case1 | case2 | case3 | case4 | case5 | case6 => exact .inl ⟨_, rfl⟩

/-- A creation that is answered with a schedule has passed the checks and stored it. -/
theorem handleCreateSchedule_created {env : ApiEnv} {t : Tenant}
    {body : Option CreateScheduleRequest} {d : Draw} {s : ApiState} {sched : Schedule}
    (created : (handleCreateSchedule env t body d s).1 = ⟨201, .schedule sched⟩) :
    (∃ loc next, env.loadLocation sched.timezone = some loc ∧
      env.parse sched.cron = some next ∧ sched.nextRunAt = next loc d.now) ∧
      (handleCreateSchedule env t body d s).2.db.schedules.find? sched.id =
        some sched.inserted := by
  unfold handleCreateSchedule at created ⊢
  rcases checkSchedule_spec env t body d.id d.now with
    ⟨message, refused⟩ | ⟨req, jobTemplate, loc, next, located, parsed, accepted⟩
  · simp [refused, writeError] at created
  · simp only [accepted] at created ⊢
    rcases insertSchedule_spec (createdSchedule t.id req jobTemplate d.id (next loc d.now))
      s.db with ⟨schedules, stored, done⟩ | done
    · -- The answer is the schedule that has been handed to the database.
      simp only [done, Response.mk.injEq, Body.schedule.injEq, true_and] at created ⊢
      subst created
      refine ⟨⟨loc, next, located, parsed, rfl⟩, ?_⟩
      rw [Table.find?_insert stored]
      exact if_pos rfl
    · simp [done, writeError] at created

/-- A successful firing stores the answer of the expression in the row of its schedule. -/
theorem fire_stores {env : Env} {sched : Schedule} {id : UUID} {now : Time} {db : Db}
    (fired : (fire env sched id now db).1 = true) :
    ∃ next, env.parse sched.cron = some next ∧
      (fire env sched id now db).2.schedules.find? sched.id = (db.schedules.find? sched.id).map
        fun row => { row with lastRunAt := some now, nextRunAt := next env.localZone now } := by
  -- A firing that cannot read its schedule or store its job reports no success.
  unfold fire at fired ⊢
  unfold fireSchedule at fired ⊢
  cases parsed : env.parse sched.cron with
  | none => simp [parsed] at fired
  | some next =>
    cases read : JobTemplate.unmarshal sched.jobTemplate with
    | none => simp [parsed, read] at fired
    | some template =>
      rcases insertJob_spec (firedJob sched template id now) db with ⟨jobs, -, -, done⟩ | ⟨e, done⟩
      · refine ⟨next, rfl, ?_⟩
        simp only [Option.bind_some, Option.map_some, done, updateScheduleAfterRun,
          Table.find?_update]
        refine Option.map_congr fun row found => ?_
        rw [if_pos (by simpa using Table.key_of_find? found)]
      · simp [parsed, read, done] at fired

/--
A creation and a firing move the schedule's next run after the time at which they compute it exactly
if the expression has an activation within the years that its search covers, and out of the minute
of that time as well if these activations are whole minutes.
-/
theorem next_run_advances_iff (env : ApiEnv)
    {upcoming : String → env.Zone → Time → Time → Prop} (spec : NextSpec env.toEnv upcoming) :
    (∀ t body d s sched,
      (handleCreateSchedule env t body d s).1 = ⟨201, .schedule sched⟩ →
        ∃ row zone, (handleCreateSchedule env t body d s).2.db.schedules.find? sched.id = some row ∧
          env.loadLocation row.timezone = some zone ∧
          (d.now < row.nextRunAt ↔ AtHand (upcoming row.cron zone d.now) d.now) ∧
          (WholeMinutes (upcoming row.cron zone d.now) →
            (row.Advanced d.now ↔ AtHand (upcoming row.cron zone d.now) d.now))) ∧
    ∀ sched id now db row, (fire env.toEnv sched id now db).1 = true →
      (fire env.toEnv sched id now db).2.schedules.find? sched.id = some row →
        (now < row.nextRunAt ↔ AtHand (upcoming sched.cron env.localZone now) now) ∧
        (WholeMinutes (upcoming sched.cron env.localZone now) →
          (row.Advanced now ↔ AtHand (upcoming sched.cron env.localZone now) now)) := by
  -- Both store what the expression answers, a firing however in the zone of the server.
  constructor
  · intro t body d s sched created
    obtain ⟨⟨zone, next, located, parsed, first⟩, stored⟩ := handleCreateSchedule_created created
    exact ⟨sched.inserted, zone, stored, located, spec.later_iff parsed first, fun whole =>
      spec.advanced_iff parsed whole first⟩
  · intro sched id now db row fired found
    obtain ⟨next, parsed, stored⟩ := fire_stores fired
    rw [found] at stored
    obtain ⟨old, -, same⟩ := Option.map_eq_some_iff.mp stored.symm
    have answered : row.nextRunAt = next env.localZone now := same ▸ rfl
    exact ⟨spec.later_iff parsed answered, fun whole => spec.advanced_iff parsed whole answered⟩

/-- The expression for every minute has an activation at the beginning of each one. -/
theorem nextSpec_everyMinute :
    NextSpec Env.everyMinute fun _ _ now instant => instant = (now / minute + 1) * minute where
  after := by
    rintro _ _ now _ rfl
    simp only [minute, second]
    lia
  found := by
    intro cron next parsed zone now _
    simp only [Env.everyMinute] at parsed
    split at parsed <;> cases parsed
    rfl
  missing := by
    intro cron next parsed zone now none
    exact absurd ⟨_, rfl⟩ none

theorem next_run_advances_minutely :
    ∃ row, (handleCreateSchedule .everyMinute devTenant
        (some ⟨"tick", "* * * * *", "", some (.object .nil)⟩) (.prompt 5 90) .initial
        ).2.db.schedules.find? 5 = some row ∧ row.Advanced 90 := by
  obtain ⟨row, -, stored, -, -, iff⟩ := (next_run_advances_iff .everyMinute nextSpec_everyMinute).1
    devTenant (some ⟨"tick", "* * * * *", "", some (.object .nil)⟩) (.prompt 5 90) .initial
    (createdSchedule 1 ⟨"tick", "* * * * *", "", none⟩ (.object .nil) 5 minute) rfl
  refine ⟨row, stored, (iff ?_).mpr (.inl ⟨_, rfl⟩)⟩
  rintro instant rfl
  exact ⟨90 / minute + 1, Int.mul_comm _ _⟩

/-- The surroundings that also know the thirtieth of February, which never comes. -/
def ApiEnv.thirtiethOfFebruary : ApiEnv :=
  { ApiEnv.everyMinute with
    parse := fun expr => if expr = "0 0 30 2 *" then some fun _ _ => zeroTime else none }

theorem next_run_in_the_past :
    ¬ ∀ (env : ApiEnv) (upcoming : String → env.Zone → Time → Time → Prop),
      NextSpec env.toEnv upcoming → (∀ cron zone now, WholeMinutes (upcoming cron zone now)) →
        (∀ t body d s sched,
          (handleCreateSchedule env t body d s).1 = ⟨201, .schedule sched⟩ →
            ∃ row, (handleCreateSchedule env t body d s).2.db.schedules.find? sched.id = some row ∧
              row.Advanced d.now) ∧
        ∀ sched id now db row, (fire env.toEnv sched id now db).1 = true →
          (fire env.toEnv sched id now db).2.schedules.find? sched.id = some row →
            row.Advanced now := by
  intro advances
  have spec : NextSpec ApiEnv.thirtiethOfFebruary.toEnv fun _ _ _ _ => False :=
    { after := False.elim
      found := fun _ _ _ any => any.elim fun _ => False.elim
      missing := by
        intro cron next parsed zone now _
        simp only [ApiEnv.thirtiethOfFebruary] at parsed
        split at parsed <;> cases parsed
        rfl }
  -- The schedule is created with a first run in the year one.
  obtain ⟨row, stored, later, -⟩ := (advances _ _ spec fun _ _ _ _ => False.elim).1 devTenant
    (some ⟨"tick", "0 0 30 2 *", "", some (.object .nil)⟩) (.prompt 5 90) .initial
    (createdSchedule 1 ⟨"tick", "0 0 30 2 *", "", none⟩ (.object .nil) 5 zeroTime) rfl
  cases stored
  exact absurd later (by decide)

end Sluice
