import Sluice.Proofs.System.Provenance
import Sluice.Proofs.System.Scheduled
import Sluice.Queue.Calls

/-! Whatever the system is about to queue is a job that was stored, in the lane of that job. -/

namespace Sluice

open Relational Transition

variable {env : Nat → Env} {past : List (Step World Action)} {w : World} {a : Action}

/-- The lane of a job. -/
def Job.ownLane (j : Job) : Lane := .ofPriority j.tenantID j.priority

/-- A job of the lane was stored under the identifier, and no other job ever will be. -/
structure Belongs (past : List (Step World Action)) (w : World) (lane : Lane) (id : UUID) :
    Prop where
  drawn : id ∈ w.drawn
  stored : ∃ e ∈ past, ∃ row, e.post.db.jobs.find? id = some row ∧ row.ownLane = lane
  -- The row may have been deleted by a cancellation.
  unique : ∀ row, w.db.jobs.find? id = some row → row.ownLane = lane

namespace Belongs

/-- An identifier stays with its lane. -/
theorem step {lane : Lane} {id : UUID} (belongs : Belongs past w lane id) (enabled : a.Enabled w) :
    Belongs (past ++ [⟨w, a, w.step env a⟩]) (w.step env a) lane id := by
  refine ⟨World.drawn_step belongs.drawn, ?_, fun row found => ?_⟩
  · obtain ⟨e, listed, there⟩ := belongs.stored
    exact ⟨e, List.mem_append_left _ listed, there⟩
  · cases before : w.db.jobs.find? id with
    | none =>
      -- Nobody draws the identifier again to store another job.
      exact absurd belongs.drawn (World.fresh_row enabled before found).2
    | some old =>
      have same := World.sameOrder_step before found
      rw [← belongs.unique old before, Job.ownLane, Job.ownLane, same.tenantID, same.priority]

/-- A stored job belongs to its lane. -/
theorem of_stored (known : Known w) (enabled : a.Enabled w) {id : UUID} (row : Job)
    (found : (w.step env a).db.jobs.find? id = some row) :
    Belongs (past ++ [⟨w, a, w.step env a⟩]) (w.step env a) row.ownLane id := by
  refine ⟨(known.step enabled).rows id row found, ?_, fun other found' => ?_⟩
  · exact ⟨_, List.mem_append_right _ List.mem_cons_self, row, found, rfl⟩
  · rw [found, Option.some.injEq] at found'
    rw [found']

/-- A job that was stored before the step belongs to its lane after it. -/
theorem of_read (known : Known w) (enabled : a.Enabled w) {id : UUID} {row : Job}
    (before : w.db.jobs.find? id = some row) (silent : a.op env w = none) :
    Belongs (past ++ [⟨w, a, w.step env a⟩]) (w.step env a) row.ownLane id := by
  refine of_stored known enabled row ?_
  rw [World.step_db_none silent, before]

end Belongs

/-- What a task says of the job that it is about. -/
def Task.Addressed (past : List (Step World Action)) (w : World) : Task → Prop
  | promoteScheduled j | promoteFailed j | requeue j | moveToDeadLetter j | replay j =>
    Belongs past w j.ownLane j.id
  | enqueue tenantID jobID priority => Belongs past w (.ofPriority tenantID priority) jobID
  | fire .. | updateSchedule .. => True

/-- A task keeps saying so. -/
theorem Task.Addressed.step {task : Task} (addressed : task.Addressed past w)
    (enabled : a.Enabled w) :
    task.Addressed (past ++ [⟨w, a, w.step env a⟩]) (w.step env a) := by
  cases task with
  | fire | updateSchedule => trivial
  | _ => exact Belongs.step addressed enabled

/-- Every task that the system has still to carry out is addressed. -/
def World.Addressed (past : List (Step World Action)) (w : World) : Prop :=
  ∀ thread, ∀ task ∈ w.threads thread, task.Addressed past w

namespace World.Addressed

/-- The tasks that follow from one that is carried out. -/
theorem followUps (addressed : w.Addressed past) (known : Known w) {thread : Nat} {id : UUID}
    {clock : Time} (enabled : (Action.exec thread id clock).Enabled w) {head : Task}
    {rest : List Task} (queued : w.threads thread = head :: rest) {task : Task}
    (listed : task ∈ head.followUps (env thread) id clock w.now w.db) :
    task.Addressed (past ++ [⟨w, .exec thread id clock, w.step env (.exec thread id clock)⟩])
      (w.step env (.exec thread id clock)) := by
  have before : head.Addressed past w := addressed thread head (queued ▸ List.mem_cons_self)
  cases head with
  | promoteScheduled j | promoteFailed j | replay j =>
    rw [List.mem_singleton.mp listed]
    exact Belongs.step before enabled
  | requeue j =>
    simp only [Task.followUps] at listed
    split at listed
    · rw [List.mem_singleton.mp listed]
      exact Belongs.step before enabled
    · cases listed
  | fire sched =>
    simp only [Task.followUps] at listed
    split at listed
    · cases listed
    · rename_i j nextRunAt fired
      split at listed
      · rename_i stored
        rcases List.mem_cons.mp listed with rfl | later
        · -- The job that has just been inserted is the one to be queued.
          have called : (Action.exec thread id clock).op env w = some (.insertJob j) := by
            simp [Action.op, queued, Task.op, fired]
          have found : (w.step env (.exec thread id clock)).db.jobs.find? j.id =
              some j.inserted := by
            rw [World.step_db_some called]
            exact find?_of_insertJob stored
          exact Belongs.of_stored known enabled j.inserted found
        · rw [List.mem_singleton.mp later]
          trivial
      · cases listed
  | moveToDeadLetter | updateSchedule | enqueue => cases listed

/-- The tasks that a step gives to a thread. -/
theorem assigned (addressed : w.Addressed past) (known : Known w) (enabled : a.Enabled w)
    {thread : Nat} {tasks : List Task} (given : a.assigns env w = some (thread, tasks)) :
    ∀ task ∈ tasks, task.Addressed (past ++ [⟨w, a, w.step env a⟩]) (w.step env a) := by
  intro task listed
  cases a with
  | submit other tenantID req id clock =>
    simp only [Action.assigns] at given
    split at given
    · rename_i stored
      cases given
      rw [List.mem_singleton.mp listed]
      have found : (w.step env (.submit thread tenantID req id clock)).db.jobs.find? id =
          some (submittedJob tenantID req id clock).inserted :=
        find?_of_insertJob (Bool.and_eq_true_iff.mp stored).1
      exact Belongs.of_stored known enabled (submittedJob tenantID req id clock).inserted found
    · cases given
  | replayJob other jobID tenantID =>
    simp only [Action.assigns] at given
    rcases replayJob_spec jobID tenantID w.db with ⟨row, found, hit, done⟩ | failed
    · rw [done] at given
      cases given
      rw [List.mem_singleton.mp listed]
      -- The tenant that asks for the replay is the owner of the job.
      have own : row.tenantID = tenantID := by
        simp only [replayable, Bool.and_eq_true, beq_iff_eq] at hit
        exact hit.1.2
      subst own
      have after : (w.step env (.replayJob thread jobID row.tenantID)).db.jobs.find? jobID =
          some (replayRow row) := by
        refine (replayJob_row jobID row.tenantID w.db).trans ?_
        rw [found]
        simp [hit]
      exact Belongs.of_stored known enabled (replayRow row) after
    · rw [failed] at given
      cases given
  | cmdReplay other jobID =>
    simp only [Action.assigns] at given
    split at given
    · rename_i j found
      split at given
      · cases given
        rw [List.mem_singleton.mp listed]
        have named := Table.key_of_find? found
        exact named.symm ▸ Belongs.of_read known enabled found rfl
      · cases given
    · cases given
  | poll other scan batch =>
    cases given
    obtain ⟨j, member, rfl⟩ := List.mem_map.mp listed
    have stored := Table.mem_rows_iff.mp (enabled.2.sound member).1
    have belongs : Belongs (past ++ [⟨w, .poll thread scan batch, _⟩])
      (w.step env (.poll thread scan batch)) j.ownLane j.id := .of_read known enabled stored rfl
    cases scan <;> exact belongs
  | expandCron other batch =>
    cases given
    obtain ⟨sched, -, rfl⟩ := List.mem_map.mp listed
    trivial
  | exec other id clock =>
    simp only [Action.assigns] at given
    split at given
    · rename_i head rest queued
      cases given
      rcases List.mem_append.mp listed with new | old
      · exact addressed.followUps known enabled queued new
      · exact (addressed thread task (queued ▸ List.mem_cons_of_mem _ old)).step enabled
    · cases given
  | drop other =>
    cases given
    exact (addressed thread task (List.mem_of_mem_tail listed)).step enabled
  | crash other =>
    cases given
    cases listed
  | _ => cases given

/-- Every step keeps the tasks addressed. -/
theorem step (addressed : w.Addressed past) (known : Known w) (enabled : a.Enabled w) :
    (w.step env a).Addressed (past ++ [⟨w, a, w.step env a⟩]) := by
  intro thread task listed
  cases given : a.assigns env w with
  | none =>
    rw [World.threads_none given] at listed
    exact (addressed thread task listed).step enabled
  | some pair =>
    obtain ⟨other, tasks⟩ := pair
    rw [World.threads_some given] at listed
    split at listed
    · exact addressed.assigned known enabled given task listed
    · exact (addressed thread task listed).step enabled

end World.Addressed

end Sluice
