import Sluice.Proofs.Storage.Scans
import Sluice.Proofs.System.Crew

/-! A pass of the reaper ends the claims that nobody extends. -/

namespace Sluice

open Relational Transition

variable {env : Nat → Env} {earlier later : List (Step World Action)} {w : World} {a : Action}
  {e : Step World Action} {k token : UUID} {thread : Nat} {now : Time}

/-- The tokens of all claims have been drawn. -/
theorem token_drawn (run : Reaches env earlier w) {row : Job}
    (found : w.db.jobs.find? k = some row) (held : row.claimToken = some token) :
    token ∈ w.drawn := by
  obtain ⟨start, run⟩ := run
  refine run.invariant (fun w => ∀ k row, w.db.jobs.find? k = some row →
    row.claimToken = some token → token ∈ w.drawn) ?_ ?_ k row found held
  · intro k row found
    cases found
  · rintro w a w' drawn ⟨-, rfl⟩ k row found held
    rcases World.step_row env w a k with same | ⟨op, called, step⟩
    · exact World.drawn_step (drawn k row (same ▸ found) held)
    · rw [found] at step
      rcases step.held_inv held with ⟨workerID, deadline, runID, now, rfl⟩ | ⟨old, was, held', -⟩
      · -- A new token is drawn by the claim itself.
        cases Action.makes called with
        | tryClaim => exact List.mem_append_left _ List.mem_cons_self
      · exact World.drawn_step (drawn k old was held')

/-- An overdue claim that a call leaves in force stays overdue, unless it is extended. -/
theorem RowStep.overdue {op : Op} {old new : Job} (step : RowStep k op (some old) (some new))
    (held : new.claimToken = some token) (overdue : old.expired now = true) :
    new.expired now = true ∨ ∃ deadline, op = .extendDeadline k token deadline := by
  have live : old.state = .claimed ∨ old.state = .running := by
    rw [Job.expired, Bool.and_eq_true] at overdue
    cases state : old.state <;> simp_all [State.inFlight]
  cases step with
  | keep => exact .inl overdue
  | start _ fresh =>
    simp only [Job.expired, fresh] at overdue ⊢
    exact .inl overdue
  | extend was =>
    cases was.symm.trans held
    exact .inr ⟨_, rfl⟩
  | claim waiting | promoteScheduled waiting | promoteFailed waiting =>
    rw [waiting] at live
    simp at live
  -- Every other effect clears the token.
  | _ => cases held

/-- Whether a task is the reaper's call for a job. -/
def Task.reaps (k : UUID) : Task → Bool
  | .requeue j => j.id == k
  | _ => false

/-- A step that keeps a pass of the reaper from ending the claim of a job. -/
def spares (env : Nat → Env) (thread : Nat) (k token : UUID) (e : Step World Action) : Bool :=
  match e.label with
  | .extendDeadline c _ => c.token == token
  | .crash other => other == thread
  -- The call for this job does not reach the database, or it ends with an error.
  | .drop other => other == thread && (e.pre.threads other).head?.any (Task.reaps k)
  | .exec other id clock => other == thread && (e.pre.threads other).head?.any fun task =>
    task.reaps k && task.fails (env other) id clock e.pre.now e.pre.db
  | _ => false

/-- The claim is no longer in force, or it is overdue and the pass has still to come to it. -/
structure Doomed (now : Time) (k token : UUID) (thread : Nat) (w : World) : Prop where
  drawn : token ∈ w.drawn
  passed : now ≤ w.now
  listed : ∀ row, w.db.jobs.find? k = some row → row.claimToken = some token →
    row.expired now = true ∧ ∃ j, j.id = k ∧ Task.requeue j ∈ w.threads thread

theorem Job.expired_mono {row : Job} {past now : Time} (after : past ≤ now)
    (overdue : row.expired past = true) : row.expired now = true := by
  simp only [Job.expired, Bool.and_eq_true, Option.any_eq_true, decide_eq_true_eq] at overdue ⊢
  obtain ⟨live, deadline, set, late⟩ := overdue
  exact ⟨live, deadline, set, Int.lt_of_lt_of_le late after⟩

/-- A reap that succeeds ends an overdue claim. -/
theorem requeueStaleJob_ends {clock dbNow : Time} {db : Db} {old row : Job}
    (was : db.jobs.find? k = some old) (overdue : old.expired dbNow = true)
    (succeeds : (requeueStaleJob k clock dbNow db).1.isOk = true)
    (found : (requeueStaleJob k clock dbNow db).2.jobs.find? k = some row) :
    row.claimToken = none := by
  rcases requeueStaleJob_spec k clock dbNow db with
    ⟨-, done⟩ | ⟨jobRuns, -, ⟨stale', -, -, done⟩ | ⟨fresh, -⟩⟩
  · rw [done] at succeeds
    cases succeeds
  · rw [done, Table.find?_update, was, Option.map_some, Option.some.injEq, if_pos] at found
    · rw [← found]
      rfl
    · simp [stale, Table.key_of_find? was, overdue]
  · rw [fresh old was] at overdue
    cases overdue

namespace Doomed

variable (doomed : Doomed now k token thread w) (enabled : a.Enabled w)
  (unspared : spares env thread k token ⟨w, a, w.step env a⟩ = false)

include doomed enabled unspared

/-- A claim that is still in force after a step is still overdue. -/
theorem overdue_step {row : Job} (found : (w.step env a).db.jobs.find? k = some row)
    (held : row.claimToken = some token) : row.expired now = true := by
  obtain ⟨old, was, held', -⟩ := World.held_row enabled doomed.drawn found held
  obtain ⟨overdue, -⟩ := doomed.listed old was held'
  rcases World.step_row env w a k with same | ⟨op, called, step⟩
  · rw [same, was, Option.some.injEq] at found
    exact found ▸ overdue
  · rw [was, found] at step
    rcases step.overdue held overdue with still | ⟨deadline, rfl⟩
    · exact still
    · -- Only a heartbeat of the claim's own worker makes this call.
      cases Action.makes called with
      | extendDeadline => simp [spares] at unspared

/-- The pass keeps the claim on its list until it is no longer in force. -/
theorem listed_step {row : Job} (found : (w.step env a).db.jobs.find? k = some row)
    (held : row.claimToken = some token) :
    ∃ j, j.id = k ∧ Task.requeue j ∈ (w.step env a).threads thread := by
  obtain ⟨old, was, held', -⟩ := World.held_row enabled doomed.drawn found held
  obtain ⟨overdue, j, named, pending⟩ := doomed.listed old was held'
  refine ⟨j, named, ?_⟩
  cases assigned : a.assigns env w with
  | none => rwa [World.threads_none assigned]
  | some work =>
    obtain ⟨other, tasks⟩ := work
    rw [World.threads_some assigned]
    split
    · rename_i own
      subst own
      cases Action.assigns_inv assigned with
      | submit | replayJob | cmdReplay | poll | expandCron =>
        -- New work is given to an idle thread only.
        simp only [Action.Enabled] at enabled
        simp_all
      | @exec _ id clock head rest queued =>
        rw [queued] at pending
        rcases List.mem_cons.mp pending with rfl | rest
        · -- The pass comes to the claim and ends it.
          exfalso
          have succeeds : (requeueStaleJob k clock w.now w.db).1.isOk = true := by
            simpa [spares, queued, Task.reaps, Task.fails, named] using unspared
          have called : (Action.exec thread id clock).op env w =
              some (.requeueStaleJob k clock w.now) := by
            simp [Action.op, queued, Task.op, named]
          rw [World.step_db_some called] at found
          rw [requeueStaleJob_ends was (Job.expired_mono doomed.passed overdue) succeeds found]
            at held
          cases held
        · exact List.mem_append_right _ rest
      | drop =>
        -- The call that was dropped is that for another job.
        cases queued : w.threads thread with
        | nil =>
          rw [queued] at pending
          cases pending
        | cons head rest =>
          rw [queued] at pending
          rcases List.mem_cons.mp pending with rfl | rest
          · simp [spares, queued, Task.reaps, named] at unspared
          · exact rest
      | crash => simp [spares] at unspared
    · exact pending

/-- No step but those that spare the claim takes it off the list. -/
theorem step : Doomed now k token thread (w.step env a) where
  drawn := World.drawn_step doomed.drawn
  passed := Int.le_trans doomed.passed (World.now_step env enabled)
  listed _ found held := ⟨doomed.overdue_step enabled unspared found held,
    doomed.listed_step enabled unspared found held⟩

end Doomed

/-- The query of a pass puts every overdue claim on its list. -/
theorem Doomed.of_poll {batch : List Job} {row : Job} (drawn : token ∈ w.drawn)
    (enabled : (Action.poll thread .reapStaleClaims batch).Enabled w)
    (stored : w.db.jobs.find? k = some row) (overdue : row.expired w.now = true) :
    Doomed w.now k token thread (w.step env (.poll thread .reapStaleClaims batch)) where
  drawn := World.drawn_step drawn
  passed := World.now_step env enabled
  listed found same _ := by
    have answered := enabled.2
    have read : row ∈ batch :=
      answered.complete rfl nofun (List.mem_of_find?_eq_some stored) overdue
    cases same.symm.trans stored
    refine ⟨overdue, row, Table.key_of_find? stored, ?_⟩
    rw [World.threads_some rfl, if_pos rfl]
    exact List.mem_map_of_mem read

/--
A pass of the reaper ends every claim that is overdue when it queries.

However its calls interleave with workers, operators, requests and other schedulers, once the pass
has come to the job the claim is no longer in force, unless a heartbeat still extended it.
-/
theorem overdue_claim_reaped {batch : List Job} {row : Job}
    (run : Reaches env (earlier ++ e :: later) w)
    (polled : e.label = .poll thread .reapStaleClaims batch)
    (stored : e.pre.db.jobs.find? k = some row) (held : row.claimToken = some token)
    (overdue : row.expired e.pre.now = true)
    (unspared : ∀ x ∈ later, spares env thread k token x = false)
    (through : ∀ task ∈ w.threads thread, task.reaps k = false) :
    ∀ row', w.db.jobs.find? k = some row' → row'.claimToken ≠ some token := by
  obtain ⟨start, run⟩ := run
  have drawn : token ∈ e.pre.drawn := token_drawn ⟨start, run.at_step.1⟩ stored held
  have doomed : Doomed e.pre.now k token thread w := by
    refine run.period (fun later w => (∀ x ∈ later, spares env thread k token x = false) →
      Doomed e.pre.now k token thread w) ?_ ?_ unspared
    · rintro ⟨enabled, made⟩ -
      rw [made, polled]
      exact .of_poll drawn (polled ▸ enabled) stored overdue
    · rintro later w a w' - doomed ⟨enabled, rfl⟩ unspared
      rw [List.forall_mem_append] at unspared
      exact (doomed unspared.1).step enabled (unspared.2 _ List.mem_cons_self)
  intro row' found inForce
  obtain ⟨-, j, named, pending⟩ := doomed.listed row' found inForce
  have skipped := through _ pending
  simp [Task.reaps, named] at skipped

/-- The job of a worker that has died with its claim. -/
def unattendedJob : Job :=
  claimRow "w" 21 (60 * second) 0 (submittedJob 7 .hook 1 0).inserted

/-- What happens until the claim is overdue. -/
def unattendedRun : List Action :=
  [.submit 0 7 .hook 1 0, .tryClaim 1 "w" 21 (60 * second) 11 0,
    .tick (61 * second)]

/-- A pass of the reaper, in which the job is also queued again. -/
def reapedRun : List Action :=
  unattendedRun ++ [.poll 1 .reapStaleClaims [unattendedJob], .exec 1 3 (61 * second),
    .exec 1 4 (61 * second)]

theorem overdue_claim_reaped_unattended :
    ((afterActions (fun _ => .everyMinute) 0 unattendedRun).db.jobs.find? 1 = some unattendedJob) ∧
      ∀ row', (afterActions (fun _ => .everyMinute) 0 reapedRun).db.jobs.find? 1 = some row' →
        row'.claimToken ≠ some 21 := by
  have run : Reaches (fun _ => .everyMinute)
      ((worldTrace (fun _ => .everyMinute) 0 reapedRun).take 3 ++
        (worldTrace (fun _ => .everyMinute) 0 reapedRun).get ⟨3, by decide +kernel⟩ ::
        (worldTrace (fun _ => .everyMinute) 0 reapedRun).drop 4)
      (afterActions (fun _ => .everyMinute) 0 reapedRun) :=
    reaches_worldTrace (fun _ => .everyMinute) 0 reapedRun (by decide +kernel)
  have found : (afterActions (fun _ => .everyMinute) 0 unattendedRun).db.jobs.find? 1 =
      some unattendedJob := by decide +kernel
  refine ⟨found, overdue_claim_reaped run rfl found rfl (by decide +kernel)
    (fun x listed => ?_) (by decide +kernel)⟩
  have unspared : ((worldTrace (fun _ => .everyMinute) 0 reapedRun).drop 4).all
      (fun x => !spares (fun _ => .everyMinute) 1 1 21 x) = true := by decide +kernel
  simpa using List.all_eq_true.mp unspared x listed

end Sluice
