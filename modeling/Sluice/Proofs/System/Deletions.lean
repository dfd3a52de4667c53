import Sluice.Proofs.System.Activations

/-! A deleted schedule fires only where it was read before. -/

namespace Sluice

open Relational Transition

variable {env : Nat → Env} {earlier later past : List (Step World Action)} {w : World} {a : Action}
  {e : Step World Action} {k tenantID : UUID}

/-- Whether a task is to fire a schedule. -/
def Task.willFire (k : UUID) : Task → Bool
  | .fire sched => sched.id == k
  | _ => false

/-- How often a thread still has a schedule to fire. -/
def World.toFire (w : World) (k : UUID) (thread : Nat) : Nat :=
  (w.threads thread).countP (Task.willFire k)

/-- A step in which a thread stores a job of a schedule. -/
def firesOn (env : Nat → Env) (k : UUID) (thread : Nat) (e : Step World Action) : Bool :=
  match e.label with
  | .exec other id clock => other == thread && (e.pre.threads other).head?.any fun task =>
    task.willFire k && !task.fails (env other) id clock e.pre.now e.pre.db
  | _ => false

/-- A schedule that is not stored, and whose identifier will not be drawn again. -/
structure Deleted (k : UUID) (w : World) : Prop where
  drawn : k ∈ w.drawn
  gone : w.db.schedules.find? k = none

theorem Deleted.step (deleted : Deleted k w) (enabled : a.Enabled w) :
    Deleted k (w.step env a) where
  drawn := World.drawn_step deleted.drawn
  gone := by
    rw [Option.eq_none_iff_forall_ne_some]
    intro row stored
    rcases World.schedule_inv enabled stored with
      same | ⟨-, fresh⟩ | ⟨_, _, _, _, _, old, _, _, had⟩
    · cases same.symm.trans deleted.gone
    · exact fresh deleted.drawn
    · cases had.symm.trans deleted.gone

/-- Stored schedules carry identifiers that were drawn. -/
theorem schedule_drawn (run : Reaches env past w) {row : Schedule}
    (stored : w.db.schedules.find? k = some row) : k ∈ w.drawn := by
  obtain ⟨start, run⟩ := run
  refine (run.history (Traced env) ?_ ?_).rows k row stored
  · have empty : ∀ k, (World.init start).db.schedules.find? k = none := fun _ => rfl
    exact ⟨by simp [empty], by simp [World.held, World.init], by simp⟩
  · rintro past w a w' - traced ⟨enabled, rfl⟩
    exact traced.step enabled

/-- A deletion that finds its row removes it. -/
theorem Deleted.of_deletion (known : ∀ row, w.db.schedules.find? k = some row → k ∈ w.drawn)
    (succeeded : (deleteSchedule k tenantID w.db).1.isOk = true) :
    Deleted k (w.step env (.deleteSchedule k tenantID)) := by
  have one : w.db.schedules.affected (fun s => s.id == k && s.tenantID == tenantID) =
      if ((w.db.schedules.find? k).filter fun s => s.id == k && s.tenantID == tenantID).isSome then
        1 else 0 := Table.affected_of_key (by simp +contextual)
  cases found : w.db.schedules.find? k with
  | none => simp [deleteSchedule, one, found, Except.isOk, Except.toBool] at succeeded
  | some row =>
    refine ⟨World.drawn_step (known row found), ?_⟩
    rw [World.step_db_some rfl]
    have named := Table.key_of_find? found
    by_cases own : row.tenantID = tenantID
    · simp [Op.apply, deleteSchedule, one, found, own, named]
    · simp [deleteSchedule, one, found, own, Except.isOk, Except.toBool] at succeeded

/-- What follows a firing fires nothing. -/
theorem Task.followUps_fire (env : Env) (id : UUID) (clock dbNow : Time) (db : Db) (head : Task) :
    (head.followUps env id clock dbNow db).countP (Task.willFire k) = 0 := by
  -- Apart from the update of the schedule, all that follows is queueing.
  cases head with
  | fire sched =>
    simp only [Task.followUps]
    split
    · rfl
    · split <;> rfl
  | requeue j =>
    simp only [Task.followUps]
    split <;> rfl
  | _ => rfl

/-- A deleted schedule gets into no more hands. -/
theorem Deleted.toFire_le (env : Nat → Env) (deleted : Deleted k w) (enabled : a.Enabled w)
    (thread : Nat) :
    (w.step env a).toFire k thread ≤ w.toFire k thread := by
  simp only [World.toFire]
  cases assigned : a.assigns env w with
  | none => rw [World.threads_none assigned]
  | some work =>
    obtain ⟨other, tasks⟩ := work
    rw [World.threads_some assigned]
    split
    · rename_i own
      subst own
      cases Action.assigns_inv assigned with
      | submit | replayJob | cmdReplay | crash => exact Nat.zero_le _
      | drop => exact (List.tail_sublist _).countP_le
      | @poll _ scan batch =>
        -- No scan of the jobs leads to a schedule.
        have idle : (batch.map scan.task).countP (Task.willFire k) = 0 := by
          rw [List.countP_map, List.countP_eq_zero]
          intro j _
          cases scan <;> simp [Scan.task, Task.willFire]
        rw [idle]
        exact Nat.zero_le _
      | @expandCron _ batch =>
        -- The query does not find the schedule any more.
        have unread : (batch.map Task.fire).countP (Task.willFire k) =
            0 := by
          rw [List.countP_map, List.countP_eq_zero]
          intro sched listed named
          have stored := stored_of_expandCron enabled listed
          rw [beq_iff_eq.mp named, deleted.gone] at stored
          cases stored
        rw [unread]
        exact Nat.zero_le _
      | @exec _ id clock head rest queued =>
        rw [List.countP_append, Task.followUps_fire, queued, List.countP_cons]
        omega
    · exact Nat.le_refl _

/-- Each firing takes the schedule out of the thread's hands once. -/
theorem World.toFire_fires {thread : Nat}
    (fired : firesOn env k thread ⟨w, a, w.step env a⟩ = true) :
    (w.step env a).toFire k thread + 1 = w.toFire k thread := by
  cases a with
  | exec other id clock =>
    simp only [firesOn, Bool.and_eq_true, beq_iff_eq, Option.any_eq_true] at fired
    obtain ⟨rfl, head, first, fire, -⟩ := fired
    obtain ⟨rest, queued⟩ : ∃ rest, w.threads other = head :: rest :=
      List.head?_eq_some_iff.mp first
    have assigned : (Action.exec other id clock).assigns env w =
        some (other, head.followUps (env other) id clock w.now w.db ++ rest) := by
      simp [Action.assigns, queued]
    rw [World.toFire, World.toFire, World.threads_some assigned, if_pos rfl, List.countP_append,
      Task.followUps_fire, queued, List.countP_cons_of_pos fire, Nat.zero_add]
  | _ => cases fired

/-- A thread has no schedule in hand twice. -/
theorem held_nodup (run : Reaches env past w) (thread : Nat) : (w.held thread).Nodup := by
  obtain ⟨start, run⟩ := run
  refine run.invariant (fun w => ∀ thread, (w.held thread).Nodup) ?_ ?_ thread
  · intro thread
    exact List.nodup_nil
  · rintro w a w' nodup ⟨enabled, rfl⟩ thread
    rcases World.held_step env w a thread with fewer | ⟨batch, rfl, read⟩
    · exact fewer.nodup (nodup thread)
    · -- The answer of a query lists no schedule twice.
      rw [read]
      exact enabled.2.nodup_map w.db.schedules.keyed

theorem World.toFire_le_count (w : World) (k : UUID) (thread : Nat) :
    w.toFire k thread ≤ (w.held thread).count k := by
  rw [World.held, List.count_filterMap, World.toFire]
  refine List.countP_mono_left fun task _ fire => ?_
  cases task with
  | fire => simpa [Task.schedule?, Task.activation?, Task.willFire] using fire
  | _ => cases fire

/--
After the deletion of a schedule, each process stores at most one more job of it, and does so only
if it had read the schedule before.
-/
theorem deleted_schedule_fires (run : Reaches env (earlier ++ e :: later) w)
    (called : e.label = .deleteSchedule k tenantID)
    (succeeded : (deleteSchedule k tenantID e.pre.db).1.isOk = true) (thread : Nat) :
    later.countP (firesOn env k thread) + w.toFire k thread ≤ e.pre.toFire k thread ∧
      e.pre.toFire k thread ≤ 1 := by
  obtain ⟨start, run⟩ := run
  have before : Run (Next env) (World.init start) earlier e.pre := run.at_step.1
  constructor
  · refine (run.period (fun later w => Deleted k w ∧
      later.countP (firesOn env k thread) + w.toFire k thread ≤ e.pre.toFire k thread) ?_ ?_).2
    · rintro ⟨-, made⟩
      rw [made, called]
      refine ⟨.of_deletion (fun row stored => schedule_drawn ⟨start, before⟩ stored) succeeded, ?_⟩
      -- The request gives no thread any work.
      rw [List.countP_nil, Nat.zero_add, World.toFire, World.threads_none rfl, World.toFire]
    · rintro later w a w' - ⟨deleted, bounded⟩ ⟨enabled, rfl⟩
      refine ⟨deleted.step enabled, ?_⟩
      have fewer := deleted.toFire_le env enabled thread
      rw [List.countP_append, List.countP_singleton]
      split
      · rename_i fired
        have once := World.toFire_fires fired
        omega
      · omega
  · calc e.pre.toFire k thread ≤ (e.pre.held thread).count k := World.toFire_le_count _ k thread
      _ ≤ 1 := List.nodup_iff_count_le_one.mp (held_nodup ⟨start, before⟩ thread) k

/-- The schedule is deleted after a leader has read it, and another leader looks for it later. -/
def deletedRun : List Action :=
  [.createSchedule minutely, .tick minute, .expandCron 1 [minutely], .deleteSchedule 5 7,
    .expandCron 2 [], .exec 1 11 minute, .exec 1 12 minute, .exec 1 13 minute]

theorem deleted_schedule_fires_read :
    ((worldTrace (fun _ => .everyMinute) 0 deletedRun).drop 4).countP
        (firesOn (fun _ => .everyMinute) 5 1) = 1 ∧
      ((worldTrace (fun _ => .everyMinute) 0 deletedRun).drop 4).countP
        (firesOn (fun _ => .everyMinute) 5 1) ≤ 1 := by
  have run : Reaches (fun _ => .everyMinute)
      ((worldTrace (fun _ => .everyMinute) 0 deletedRun).take 3 ++
        (worldTrace (fun _ => .everyMinute) 0 deletedRun).get ⟨3, by decide +kernel⟩ ::
        (worldTrace (fun _ => .everyMinute) 0 deletedRun).drop 4)
      (afterActions (fun _ => .everyMinute) 0 deletedRun) :=
    reaches_worldTrace (fun _ => .everyMinute) 0 deletedRun (by decide +kernel)
  refine ⟨by decide +kernel, ?_⟩
  obtain ⟨bounded, once⟩ := deleted_schedule_fires run rfl (by decide +kernel) 1
  exact Nat.le_trans (Nat.le_of_add_right_le bounded) once

end Sluice
