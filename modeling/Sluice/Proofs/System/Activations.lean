import Mathlib.Data.List.Pairwise
import Sluice.Proofs.Storage.Schedules
import Sluice.Proofs.System.Frames
import Sluice.System.Trace

/-! Each activation of a schedule leads to one job if leaders keep out of each other's way. -/

namespace Sluice

open Relational Transition

variable {env : Nat → Env} {w : World} {a : Action}

/--
The activation that a task has in hand, as a schedule and a value of its `next_run_at`.

Before the insertion it is the one that was read, and afterwards the one that is to be written.
-/
def Task.activation? : Task → Option (UUID × Time)
  | .fire sched => some (sched.id, sched.nextRunAt)
  | .updateSchedule id _ nextRunAt => some (id, nextRunAt)
  | _ => none

/-- The schedule that a task has in hand, from its query up to its update. -/
def Task.schedule? (task : Task) : Option UUID := task.activation?.map Prod.fst

/-- The schedules that a thread has in hand. -/
def World.held (w : World) (thread : Nat) : List UUID :=
  (w.threads thread).filterMap Task.schedule?

/-- A task in hand shows in its thread's schedules. -/
theorem World.mem_held {thread : Nat} {task : Task} {k : UUID} (listed : task ∈ w.threads thread)
    (named : task.schedule? = some k) : k ∈ w.held thread :=
  List.mem_filterMap.mpr ⟨task, listed, named⟩

/-- Carrying out a task keeps in hand at most the schedule it had. -/
theorem Task.held_followUps (env : Env) (id : UUID) (clock dbNow : Time) (db : Db) (head : Task) :
    ((head.followUps env id clock dbNow db).filterMap schedule?).Sublist head.schedule?.toList := by
  -- Apart from the update after a firing, all that follows is queueing.
  cases head with
  | fire sched =>
    simp only [Task.followUps]
    split
    · exact List.nil_sublist _
    · split
      · -- The update that follows concerns the schedule that has fired.
        exact List.Sublist.refl _
      · exact List.nil_sublist _
  | requeue j =>
    simp only [Task.followUps]
    split <;> exact List.nil_sublist _
  | _ => exact List.nil_sublist _

/-- A step takes schedules out of a thread's hands, unless the thread has just read them. -/
theorem World.held_step (env : Nat → Env) (w : World) (a : Action) (thread : Nat) :
    ((w.step env a).held thread).Sublist (w.held thread) ∨
      ∃ batch, a = .expandCron thread batch ∧
        (w.step env a).held thread = batch.map Schedule.id := by
  -- Only the thread that gets new work can hold anything new.
  cases assigned : a.assigns env w with
  | none => exact .inl (by rw [World.held, World.threads_none assigned, World.held])
  | some work =>
    obtain ⟨other, tasks⟩ := work
    simp only [World.held, World.threads_some assigned]
    by_cases same : thread = other
    · subst same
      rw [if_pos rfl]
      cases Action.assigns_inv assigned with
      | submit | replayJob | cmdReplay | crash => exact .inl (List.nil_sublist _)
      | @poll _ scan batch =>
        -- No scan of the jobs leads to a schedule.
        have unheld : ∀ j, (scan.task j).schedule? = none := by
          intro j
          cases scan <;> rfl
        have empty : (batch.map scan.task).filterMap Task.schedule? = [] := by
          simp [List.filterMap_map, unheld]
        rw [empty]
        exact .inl (List.nil_sublist _)
      | @expandCron _ batch =>
        refine .inr ⟨batch, rfl, ?_⟩
        simp [List.filterMap_map, Function.comp_def, Task.schedule?, Task.activation?]
      | @exec _ _ _ head rest queued =>
        -- The head is replaced by what follows from it.
        left
        have split : (head :: rest).filterMap Task.schedule? =
            head.schedule?.toList ++ rest.filterMap Task.schedule? := by
          cases named : head.schedule? <;> simp [named]
        rw [queued, List.filterMap_append, split]
        exact (Task.held_followUps _ _ _ _ _ head).append (List.Sublist.refl _)
      | drop => exact .inl ((List.tail_sublist _).filterMap _)
    · rw [if_neg same]
      exact .inl (List.Sublist.refl _)

/-- A task leaves its thread when it is carried out, when it fails, and when the process stops. -/
theorem World.released (env : Nat → Env) {thread : Nat} {task : Task} (enabled : a.Enabled w)
    (listed : task ∈ w.threads thread) :
    task ∈ (w.step env a).threads thread ∨
      (∃ id clock rest, a = .exec thread id clock ∧ w.threads thread = task :: rest) ∨
      (∃ rest, a = .drop thread ∧ w.threads thread = task :: rest) ∨ a = .crash thread := by
  cases assigned : a.assigns env w with
  | none => exact .inl (by rwa [World.threads_none assigned])
  | some work =>
    obtain ⟨other, tasks⟩ := work
    rw [World.threads_some assigned]
    by_cases same : thread = other
    · subst same
      rw [if_pos rfl]
      -- New work is only taken on by a thread that has none.
      have busy : w.threads thread ≠ [] := List.ne_nil_of_mem listed
      cases Action.assigns_inv assigned with
      | submit | poll | expandCron => exact absurd enabled.1 busy
      | replayJob | cmdReplay => exact absurd enabled busy
      | @exec _ id clock head rest queued =>
        rw [queued] at listed
        -- The task is carried out if it is the head, and stays otherwise.
        rcases List.mem_cons.mp listed with rfl | later
        · exact .inr (.inl ⟨id, clock, rest, rfl, queued⟩)
        · exact .inl (List.mem_append_right _ later)
      | drop =>
        cases queued : w.threads thread with
        | nil => exact absurd queued busy
        | cons head rest =>
          rw [queued] at listed
          rcases List.mem_cons.mp listed with rfl | later
          · exact .inr (.inr (.inl ⟨rest, rfl, rfl⟩))
          · exact .inl later
      | crash => exact .inr (.inr (.inr rfl))
    · rw [if_neg same]
      exact .inl listed

/-- Where a stored schedule comes from: an earlier row, a creation, or the update after a firing. -/
theorem World.schedule_inv {k : UUID} {row : Schedule} (enabled : a.Enabled w)
    (stored : (w.step env a).db.schedules.find? k = some row) :
    w.db.schedules.find? k = some row ∨ (k ∈ a.draws ∧ k ∉ w.drawn) ∨
      ∃ thread id clock lastRunAt rest old, a = .exec thread id clock ∧
        w.threads thread = .updateSchedule k lastRunAt row.nextRunAt :: rest ∧
        w.db.schedules.find? k = some old := by
  -- Of the calls on schedules, a deletion leaves no row.
  cases called : a.op env w with
  | none => exact .inl (by rwa [World.step_db_none called] at stored)
  | some op =>
    rw [World.step_db_some called] at stored
    have step := apply_schedule op w.db k
    rw [stored] at step
    generalize before : w.db.schedules.find? k = old at step
    cases step with
    | keep => exact .inl rfl
    | insert named =>
      cases Action.makes called with
      | createSchedule =>
        rw [← named]
        exact .inr (.inl ⟨List.mem_singleton_self _, enabled⟩)
    | update =>
      cases Action.makes called with
      | updateSchedule head => exact .inr (.inr ⟨_, _, _, _, _, _, rfl, head, rfl⟩)

/-- A step that stores a job for the activation of a schedule. -/
def fires (env : Nat → Env) (k : UUID) (v : Time) (e : Step World Action) : Bool :=
  match e.label with
  | .exec thread id clock =>
    match e.pre.threads thread with
    | .fire sched :: _ =>
      -- The activation is the one that the query has read.
      sched.id == k && sched.nextRunAt == v &&
        !(Task.fire sched).fails (env thread) id clock e.pre.now e.pre.db
    | _ => false
  | _ => false

/-- What it takes for a schedule to fire, with the activation that is to follow. -/
inductive Firing (env : Nat → Env) (w : World) (k : UUID) (v nextRunAt : Time) : Action → Prop where
  | stored {thread : Nat} {id : UUID} {clock : Time} {sched : Schedule} {j : Job}
      {rest : List Task} (head : w.threads thread = .fire sched :: rest)
      (named : sched.id = k) (activation : sched.nextRunAt = v)
      (fired : fireSchedule (env thread) sched id clock = some (j, nextRunAt))
      (stored : (insertJob j w.db).1.isOk = true) :
      Firing env w k v nextRunAt (.exec thread id clock)

/-- A firing step carries out the head of its thread, and the insertion succeeds. -/
theorem fires_inv {w' : World} {k : UUID} {v : Time} (fired : fires env k v ⟨w, a, w'⟩ = true) :
    ∃ nextRunAt, Firing env w k v nextRunAt a := by
  -- A firing that does not fail could be read and was stored.
  cases a with
  | exec thread id clock =>
    simp only [fires] at fired
    split at fired
    · rename_i sched rest head
      simp only [Bool.and_eq_true, beq_iff_eq, Bool.not_eq_true', Task.fails] at fired
      obtain ⟨⟨named, activation⟩, succeeded⟩ := fired
      split at succeeded
      · cases succeeded
      · rename_i j nextRunAt found
        exact ⟨nextRunAt, .stored head named activation found (by simpa using succeeded)⟩
    · cases fired
  | _ => cases fired

/-- Storing the job that an activation stands for is a firing. -/
theorem fires_of_stored {w' : World} {thread : Nat} {id : UUID} {clock nextRunAt : Time}
    {sched : Schedule} {j : Job} {rest : List Task}
    (head : w.threads thread = .fire sched :: rest)
    (fired : fireSchedule (env thread) sched id clock = some (j, nextRunAt))
    (stored : (insertJob j w.db).1.isOk = true) :
    fires env sched.id sched.nextRunAt ⟨w, .exec thread id clock, w'⟩ = true := by
  simp [fires, head, Task.fails, fired, stored]

/-- A firing step fires one activation. -/
theorem Firing.activation_eq {k : UUID} {u v next next' : Time} (one : Firing env w k u next a)
    (other : Firing env w k v next' a) : u = v := by
  -- Both are about the task at the head of the same thread.
  cases one with
  | stored head _ activation =>
    cases other with
    | stored head' _ activation' =>
      rw [head, List.cons.injEq, Task.fire.injEq] at head'
      rw [← activation, head'.1, activation']

/-- A firing takes a schedule that its thread has in hand. -/
theorem Firing.held {k : UUID} {v nextRunAt : Time} (firing : Firing env w k v nextRunAt a) :
    ∃ thread, k ∈ w.held thread := by
  -- The task at the head names the schedule.
  cases firing with
  | @stored thread _ _ sched _ _ head named =>
    have listed : Task.fire sched ∈ w.threads thread := head ▸ List.mem_cons_self
    exact ⟨thread, World.mem_held listed (congrArg some named)⟩

/-- A firing leaves the update of the schedule to its thread. -/
theorem Firing.follows {k : UUID} {v nextRunAt : Time} (firing : Firing env w k v nextRunAt a) :
    ∃ thread clock, Task.updateSchedule k clock nextRunAt ∈ (w.step env a).threads thread := by
  cases firing with
  | @stored thread id clock sched j rest head named _ fired stored =>
    -- The update stands behind the queueing of the stored job.
    refine ⟨thread, clock, ?_⟩
    have assigned : (Action.exec thread id clock).assigns env w = some (thread,
        [.queue j, .updateSchedule sched.id clock nextRunAt] ++ rest) := by
      simp only [Action.assigns, head, Task.followUps, fired, stored, if_true]
    rw [World.threads_some assigned, if_pos rfl, named]
    simp

/-- Every firing of the schedule so far was for an activation before the given one. -/
def FiredBelow (env : Nat → Env) (past : List (Step World Action)) (k : UUID) (v : Time) : Prop :=
  ∀ e ∈ past, ∀ u, fires env k u e = true → u < v

/--
What keeps the firings of a schedule apart.

No pass reads a schedule that a leader has in hand, and no update is lost once the job is stored. A
leader that fires a schedule has a clock that has come to the activation, and the expression has
another activation after the clock reading.
-/
def Orderly (env : Nat → Env) (e : Step World Action) : Prop :=
  match e.label with
  | .expandCron _ batch => ∀ sched ∈ batch, ∀ thread, sched.id ∉ e.pre.held thread
  | .drop thread =>
    ∀ k lastRunAt nextRunAt rest,
      e.pre.threads thread ≠ .updateSchedule k lastRunAt nextRunAt :: rest
  | .crash thread =>
    ∀ k lastRunAt nextRunAt, .updateSchedule k lastRunAt nextRunAt ∉ e.pre.threads thread
  | .exec thread _ clock =>
    ∀ sched rest next, e.pre.threads thread = .fire sched :: rest →
      (env thread).parse sched.cron = some next →
        sched.nextRunAt ≤ clock ∧ clock < next (env thread).localZone clock
  | _ => True

/-- Schedules in hand, stored, or fired carry identifiers that were drawn. -/
structure Traced (env : Nat → Env) (past : List (Step World Action)) (w : World) : Prop where
  rows : ∀ k row, w.db.schedules.find? k = some row → k ∈ w.drawn
  tasks : ∀ thread, ∀ k ∈ w.held thread, k ∈ w.drawn
  fired : ∀ e ∈ past, ∀ k v, fires env k v e = true → k ∈ w.drawn

/-- Schedules that a pass reads are stored. -/
theorem stored_of_expandCron {thread : Nat} {batch : List Schedule} {sched : Schedule}
    (enabled : (Action.expandCron thread batch).Enabled w) (listed : sched ∈ batch) :
    w.db.schedules.find? sched.id = some sched :=
  Table.mem_rows_iff.mp (enabled.2.sound listed).1

/-- Every step keeps track of the identifiers. -/
theorem Traced.step {past : List (Step World Action)} (traced : Traced env past w)
    (enabled : a.Enabled w) :
    Traced env (past ++ [⟨w, a, w.step env a⟩]) (w.step env a) := by
  refine ⟨?_, ?_, ?_⟩
  · -- A row is old, or its identifier has just been drawn.
    intro k row stored
    rcases World.schedule_inv enabled stored with
      same | ⟨drawn, -⟩ | ⟨_, _, _, _, _, old, _, _, had⟩
    · exact World.drawn_step (traced.rows k row same)
    · exact List.mem_append_left _ drawn
    · exact World.drawn_step (traced.rows k old had)
  · intro thread k listed
    rcases World.held_step env w a thread with fewer | ⟨batch, rfl, read⟩
    · exact World.drawn_step (traced.tasks thread k (fewer.subset listed))
    · -- A schedule that was just read is stored.
      rw [read] at listed
      obtain ⟨sched, member, rfl⟩ := List.mem_map.mp listed
      exact World.drawn_step (traced.rows _ sched (stored_of_expandCron enabled member))
  · -- What fires was in hand.
    intro e listed k v fired
    rcases List.mem_append.mp listed with old | new
    · exact World.drawn_step (traced.fired e old k v fired)
    · rw [List.mem_singleton.mp new] at fired
      obtain ⟨nextRunAt, firing⟩ := fires_inv fired
      obtain ⟨thread, held⟩ := firing.held
      exact World.drawn_step (traced.tasks thread k held)

/-- No schedule is in hand twice. -/
structure Exclusive (w : World) : Prop where
  nodup : ∀ thread, (w.held thread).Nodup
  apart : ∀ one other k, k ∈ w.held one → k ∈ w.held other → one = other

/-- Orderly passes hand out each schedule once. -/
theorem Exclusive.step (exclusive : Exclusive w) (enabled : a.Enabled w)
    (orderly : Orderly env ⟨w, a, w.step env a⟩) : Exclusive (w.step env a) := by
  -- A schedule in hand after the step was in the same hands before, or has just been read.
  have origin : ∀ thread k, k ∈ (w.step env a).held thread → k ∈ w.held thread ∨
      ∃ batch, a = .expandCron thread batch ∧ ∀ other, k ∉ w.held other := by
    intro thread k listed
    rcases World.held_step env w a thread with fewer | ⟨batch, rfl, read⟩
    · exact .inl (fewer.subset listed)
    · rw [read] at listed
      obtain ⟨sched, member, rfl⟩ := List.mem_map.mp listed
      exact .inr ⟨batch, rfl, orderly sched member⟩
  refine ⟨?_, ?_⟩
  · -- The answer of a query lists no schedule twice.
    intro thread
    rcases World.held_step env w a thread with fewer | ⟨batch, rfl, read⟩
    · exact fewer.nodup (exclusive.nodup thread)
    · rw [read]
      exact enabled.2.nodup_map w.db.schedules.keyed
  · intro one other k first second
    rcases origin one k first with old | ⟨batch, rfl, free⟩
    · rcases origin other k second with old' | ⟨batch, rfl, free⟩
      · exact exclusive.apart one other k old old'
      · exact absurd old (free one)
    · rcases origin other k second with old' | ⟨batch', same, -⟩
      · exact absurd old' (free other)
      · cases same
        rfl

/-- Two tasks with the same schedule in hand are the same. -/
theorem Exclusive.unique (exclusive : Exclusive w) {one other : Nat} {task task' : Task} {k : UUID}
    (first : task ∈ w.threads one) (second : task' ∈ w.threads other)
    (named : task.schedule? = some k) (named' : task'.schedule? = some k) : task = task' := by
  obtain rfl := exclusive.apart one other k (World.mem_held first named)
    (World.mem_held second named')
  -- Entries at different places of one thread have different schedules.
  have symmetric : Std.Symm fun a b : Task =>
      ∀ x, a.schedule? = some x → ∀ y, b.schedule? = some y → x ≠ y :=
    ⟨fun a b distinct x hx y hy same => distinct y hy x hx same.symm⟩
  by_contra differ
  have distinct := List.pairwise_filterMap.mp (exclusive.nodup one)
  exact distinct.forall first second differ k named k named' rfl

/--
How the firings so far bound the activations that are still to come.

A stored activation is unspent unless its update is still in some leader's hands.
-/
structure Paced (env : Nat → Env) (past : List (Step World Action)) (w : World) : Prop where
  tasks : ∀ thread, ∀ task ∈ w.threads thread, ∀ k v, task.activation? = some (k, v) →
    FiredBelow env past k v
  rows : ∀ k row, w.db.schedules.find? k = some row →
    (∀ thread lastRunAt v, Task.updateSchedule k lastRunAt v ∉ w.threads thread) →
    FiredBelow env past k row.nextRunAt

/-- A step that does not fire the schedule keeps its bound. -/
theorem FiredBelow.snoc {past : List (Step World Action)} {k : UUID} {v : Time}
    (below : FiredBelow env past k v) {e : Step World Action}
    (quiet : ∀ u, fires env k u e = true → u < v) : FiredBelow env (past ++ [e]) k v := by
  -- The firing in question is an old one, or the last step.
  intro x listed u fired
  rcases List.mem_append.mp listed with old | new
  · exact below x old u fired
  · rw [List.mem_singleton.mp new] at fired
    exact quiet u fired

/-- What a leader writes after a firing lies above everything that has fired. -/
theorem Firing.advances {past : List (Step World Action)} {k : UUID} {u nextRunAt : Time}
    (firing : Firing env w k u nextRunAt a) (paced : Paced env past w)
    (orderly : Orderly env ⟨w, a, w.step env a⟩) :
    FiredBelow env (past ++ [⟨w, a, w.step env a⟩]) k nextRunAt := by
  -- The clock has come to the fired activation, and the next one comes after the clock.
  have later : FiredBelow env past k u ∧ u < nextRunAt := by
    cases firing with
    | @stored thread _ clock sched _ rest head named activation fired _ =>
      have listed : Task.fire sched ∈ w.threads thread := head ▸ List.mem_cons_self
      obtain ⟨next, -, parsed, -, follows⟩ := fireSchedule_inv fired
      obtain ⟨due, after⟩ := orderly _ _ _ head parsed
      rw [← named, ← activation, follows]
      exact ⟨paced.tasks thread _ listed _ _ rfl, Int.lt_of_le_of_lt due after⟩
  refine FiredBelow.snoc ?_ ?_
  · intro e listed v fired
    exact Int.lt_trans (later.1 e listed v fired) later.2
  · intro v fired
    obtain ⟨_, other⟩ := fires_inv fired
    rw [← firing.activation_eq other]
    exact later.2

/-- What is in hand after an orderly step is not yet spent. -/
theorem Paced.tasks_step {past : List (Step World Action)} (paced : Paced env past w)
    (enabled : a.Enabled w) (orderly : Orderly env ⟨w, a, w.step env a⟩)
    (exclusive : Exclusive (w.step env a)) {thread : Nat} {task : Task}
    (listed : task ∈ (w.step env a).threads thread) {k : UUID} {v : Time}
    (named : task.activation? = some (k, v)) :
    FiredBelow env (past ++ [⟨w, a, w.step env a⟩]) k v := by
  have named' : task.schedule? = some k := congrArg (Option.map Prod.fst) named
  by_cases firing : ∃ u, fires env k u ⟨w, a, w.step env a⟩ = true
  · -- Nobody else has the schedule in hand, so the task is the update of this firing.
    obtain ⟨u, fired⟩ := firing
    obtain ⟨nextRunAt, firing⟩ := fires_inv fired
    obtain ⟨other, clock, update⟩ := firing.follows
    obtain rfl := exclusive.unique listed update named' rfl
    cases named
    exact firing.advances paced orderly
  · -- The step does not fire the schedule, so the bound of the task's origin carries over.
    refine FiredBelow.snoc ?_ fun u fired => absurd ⟨u, fired⟩ firing
    cases World.assigned listed with
    | kept old => exact paced.tasks thread task old k v named
    | @polled _ scan _ _ _ _ made =>
      subst made
      cases scan <;> cases named
    | @due batch sched expanded member =>
      -- The pass read the stored activation, and no update of it was under way.
      subst expanded
      cases named
      refine paced.rows sched.id sched (stored_of_expandCron enabled member) ?_
      intro other lastRunAt u updating
      exact orderly sched member other (World.mem_held updating rfl)
    | fired run head fired stored =>
      subst run
      cases named
      exact absurd ⟨_, fires_of_stored head fired stored⟩ firing
    | read | queued => cases named

/-- The update after a firing writes the activation it was given. -/
theorem World.updateSchedule_writes {thread : Nat} {id k : UUID} {clock lastRunAt v : Time}
    {rest : List Task} {row : Schedule}
    (head : w.threads thread = .updateSchedule k lastRunAt v :: rest)
    (stored : (w.step env (.exec thread id clock)).db.schedules.find? k = some row) :
    row.nextRunAt = v := by
  -- The update has no condition besides the identifier.
  have called : (Action.exec thread id clock).op env w =
      some (.updateScheduleAfterRun k lastRunAt v) := by
    simp only [Action.op, head, List.head?_cons, Option.bind_some, Task.op]
  rw [World.step_db_some called] at stored
  simp only [Op.apply, updateScheduleAfterRun, Table.find?_update, Option.map_eq_some_iff] at stored
  obtain ⟨old, found, rfl⟩ := stored
  have hit : old.id = k := Table.key_of_find? found
  simp [hit]

/-- What is stored after an orderly step is not yet spent, unless its update is under way. -/
theorem Paced.rows_step {past : List (Step World Action)} (paced : Paced env past w)
    (traced : Traced env past w) (enabled : a.Enabled w)
    (orderly : Orderly env ⟨w, a, w.step env a⟩) {k : UUID} {row : Schedule}
    (stored : (w.step env a).db.schedules.find? k = some row)
    (settled : ∀ thread lastRunAt v,
      Task.updateSchedule k lastRunAt v ∉ (w.step env a).threads thread) :
    FiredBelow env (past ++ [⟨w, a, w.step env a⟩]) k row.nextRunAt := by
  refine FiredBelow.snoc ?_ ?_
  · by_cases updating : ∃ thread lastRunAt v, Task.updateSchedule k lastRunAt v ∈ w.threads thread
    · -- An update that was under way has just been made, since none is lost.
      obtain ⟨thread, lastRunAt, v, listed⟩ := updating
      rcases World.released env enabled listed with
        still | ⟨id, clock, rest, rfl, head⟩ | ⟨rest, rfl, head⟩ | rfl
      · exact absurd still (settled thread lastRunAt v)
      · rw [World.updateSchedule_writes head stored]
        exact paced.tasks thread _ listed k v rfl
      · exact absurd head (orderly k lastRunAt v rest)
      · exact absurd listed (orderly k lastRunAt v)
    · have idle : ∀ thread lastRunAt v, Task.updateSchedule k lastRunAt v ∉ w.threads thread :=
        fun thread lastRunAt v listed => updating ⟨thread, lastRunAt, v, listed⟩
      rcases World.schedule_inv enabled stored with
        same | ⟨-, fresh⟩ | ⟨thread, _, _, _, _, _, _, head, -⟩
      · exact paced.rows k row same idle
      · -- A schedule with a fresh identifier has never fired.
        intro e listed u fired
        exact absurd (traced.fired e listed k u fired) fresh
      · exact absurd (head ▸ List.mem_cons_self) (idle thread _ _)
  · -- If the step had fired the schedule, its update would be under way.
    intro u fired
    obtain ⟨nextRunAt, firing⟩ := fires_inv fired
    obtain ⟨thread, clock, update⟩ := firing.follows
    exact absurd update (settled thread clock nextRunAt)

/-- In an orderly run every activation in hand or stored is unspent. -/
theorem paced_of_run {start : Time} {past : List (Step World Action)}
    (run : Run (Next env) (World.init start) past w) (orderly : ∀ e ∈ past, Orderly env e) :
    Traced env past w ∧ Exclusive w ∧ Paced env past w := by
  revert orderly
  refine run.history (fun past w => (∀ e ∈ past, Orderly env e) →
    Traced env past w ∧ Exclusive w ∧ Paced env past w) ?_ ?_
  · -- Before the first step there is nothing stored and nothing to do.
    intro _
    have empty : ∀ k, (World.init start).db.schedules.find? k = none := fun _ => rfl
    exact ⟨⟨by simp [empty], by simp [World.held, World.init], by simp⟩,
      ⟨by simp [World.held, World.init], by simp [World.held, World.init]⟩,
      ⟨by simp [World.init], by simp [empty]⟩⟩
  · rintro past w a w' - ih ⟨enabled, rfl⟩ orderly
    obtain ⟨traced, exclusive, paced⟩ :=
      ih fun e listed => orderly e (List.mem_append_left _ listed)
    have last : Orderly env ⟨w, a, w.step env a⟩ := orderly _ (by simp)
    have exclusive' := exclusive.step enabled last
    refine ⟨traced.step enabled, exclusive', ⟨?_, ?_⟩⟩
    · intro thread task listed k v named
      exact paced.tasks_step enabled last exclusive' listed named
    · intro k row stored settled
      exact paced.rows_step traced enabled last stored settled

/-- In a run whose steps are all orderly, each activation of a schedule leads to at most one job. -/
theorem activation_fires_once {past : List (Step World Action)} (run : Reaches env past w)
    (orderly : ∀ e ∈ past, Orderly env e) (k : UUID) (v : Time) :
    past.countP (fires env k v) ≤ 1 := by
  -- The induction counts the firings of this activation along the history.
  obtain ⟨start, run⟩ := run
  revert orderly
  refine run.history (fun past _ => (∀ e ∈ past, Orderly env e) →
    past.countP (fires env k v) ≤ 1) (by simp) ?_
  intro past w a w' before ih step orderly
  have earlier : ∀ e ∈ past, Orderly env e := fun e listed =>
    orderly e (List.mem_append_left _ listed)
  rw [List.countP_append, List.countP_singleton]
  split
  · -- A firing takes an activation above all earlier ones, so it is the first of its kind.
    rename_i fired
    have first : past.countP (fires env k v) = 0 := by
      rw [List.countP_eq_zero]
      intro e listed again
      obtain ⟨nextRunAt, firing⟩ := fires_inv fired
      cases firing with
      | @stored thread _ _ sched _ _ head named activation =>
        have inHand : Task.fire sched ∈ w.threads thread := head ▸ List.mem_cons_self
        have below := (paced_of_run before earlier).2.2.tasks thread _ inHand k v
          (by rw [← named, ← activation]; rfl)
        exact Int.lt_irrefl v (below e listed v again)
    rw [first]
  · rw [Nat.add_zero]
    exact ih earlier

/-- A schedule that fires every minute, from the first minute on. -/
def minutely : Schedule where
  id := 5
  tenantID := 7
  name := "minutely"
  cron := "* * * * *"
  timezone := "UTC"
  jobTemplate := .object (.cons "type" (.string "webhook") (.cons "payload" hookPayload .nil))
  enabled := true
  lastRunAt := none
  nextRunAt := minute

/-- A leader fires the schedule, queues the job, and writes the activation that follows. -/
def firedRun : List Action :=
  [.createSchedule minutely, .tick minute, .expandCron 1 [minutely], .exec 1 11 minute,
    .exec 1 12 minute, .exec 1 13 minute, .expandCron 1 []]

theorem activation_fires_once_minutely :
    (∃ e ∈ worldTrace (fun _ => .everyMinute) 0 firedRun,
        fires (fun _ => .everyMinute) 5 minute e = true) ∧
      (worldTrace (fun _ => .everyMinute) 0 firedRun).countP
        (fires (fun _ => .everyMinute) 5 minute) ≤ 1 := by
  have run := reaches_worldTrace (fun _ => .everyMinute) 0 firedRun (by decide +kernel)
  refine ⟨List.any_eq_true.mp (by decide +kernel), activation_fires_once run ?_ 5 minute⟩
  simp only [worldTrace, firedRun, trace, List.forall_mem_cons]
  refine ⟨trivial, trivial, ?_, ?_, ?_, ?_, ?_, by simp⟩
  · -- The pass reads the schedule while nobody has anything in hand.
    intro sched _ thread held
    cases held
  · -- The clock shows the first minute, after which the second one comes.
    intro sched rest next head parsed
    cases head
    cases parsed
    decide
  · intro sched rest next head
    cases head
  · intro sched rest next head
    cases head
  · intro sched listed
    cases listed

/-- Two leaders read the schedule before either of them has written the next activation. -/
def dualLeaders : List Action :=
  [.createSchedule minutely, .tick minute, .expandCron 1 [minutely], .expandCron 2 [minutely],
    .exec 1 11 minute, .exec 2 12 minute]

theorem activation_fires_twice_under_dual_leadership :
    ¬ ∀ (env : Nat → Env) (past : List (Step World Action)) (w : World), Reaches env past w →
      ∀ (k : UUID) (v : Time), past.countP (fires env k v) ≤ 1 := by
  intro once
  have run := reaches_worldTrace (fun _ => .everyMinute) 0 dualLeaders (by decide +kernel)
  have twice : (worldTrace (fun _ => .everyMinute) 0 dualLeaders).countP
      (fires (fun _ => .everyMinute) 5 minute) = 2 := by decide +kernel
  have bound := once _ _ _ run 5 minute
  rw [twice] at bound
  omega

end Sluice
