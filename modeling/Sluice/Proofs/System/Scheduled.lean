import Sluice.Proofs.System.Frames
import Sluice.System.Trace

/-! A scheduled job waits for its run time, however long the leaders pause in between. -/

namespace Sluice

open Relational Transition

variable {env : Nat → Env} {w : World} {a : Action}

/-- Stored jobs, and jobs remembered as due, carry identifiers that were drawn. -/
structure Known (w : World) : Prop where
  rows : ∀ k row, w.db.jobs.find? k = some row → k ∈ w.drawn
  tasks : ∀ thread j, Task.promoteScheduled j ∈ w.threads thread → j.id ∈ w.drawn

/-- A job that a thread is about to promote was promoted before the step or has just been read. -/
theorem World.promoteScheduled_inv (enabled : a.Enabled w) {thread : Nat} {j : Job}
    (listed : Task.promoteScheduled j ∈ (w.step env a).threads thread) :
    Task.promoteScheduled j ∈ w.threads thread ∨
      w.db.jobs.find? j.id = some j ∧ j.state = .scheduled ∧ j.runAt ≤ w.now := by
  -- Such a task is not among those that follow from other tasks.
  cases World.assigned listed with
  | kept old => exact .inl old
  | @polled _ scan batch read polled member named =>
    -- Only one of the scans leads to such a task, and it reads due rows.
    subst polled
    cases scan with
    | pollScheduledJobs =>
      cases named
      obtain ⟨stored, hit⟩ := enabled.2.sound member
      simp only [Scan.query, getDueJobs, Bool.and_eq_true, beq_iff_eq, decide_eq_true_eq] at hit
      exact .inr ⟨Table.mem_rows_iff.mp stored, hit⟩
    | _ => cases named

/-- Every step keeps what is known of identifiers. -/
theorem Known.step (known : Known w) (enabled : a.Enabled w) : Known (w.step env a) := by
  -- Rows appear under identifiers just drawn, and tasks remember stored rows.
  refine ⟨fun k row stored => ?_, fun thread j listed => ?_⟩
  · cases before : w.db.jobs.find? k with
    | none => exact List.mem_append_left _ (World.fresh_row enabled before stored).1
    | some old => exact World.drawn_step (known.rows k old before)
  · rcases World.promoteScheduled_inv enabled listed with old | ⟨found, -⟩
    · exact World.drawn_step (known.tasks thread j old)
    · exact World.drawn_step (known.rows j.id j found)

/-- Identifiers are known throughout every run. -/
theorem known_of_run {start : Time} {past : List (Step World Action)}
    (run : Run (Next env) (World.init start) past w) : Known w := by
  -- At the start there are neither rows nor tasks.
  refine run.invariant Known ⟨?_, ?_⟩ ?_
  · intro k row found
    cases found
  · intro thread j listed
    cases listed
  · rintro w a w' known ⟨enabled, rfl⟩
    exact known.step enabled

/-- As long as its time has not come, the job is scheduled and nobody is about to promote it. -/
structure Waits (k : UUID) (t : Time) (w : World) : Prop where
  drawn : k ∈ w.drawn
  row : w.now < t → ∀ row, w.db.jobs.find? k = some row → row.state = .scheduled ∧ row.runAt = t
  unread : w.now < t → ∀ thread j, Task.promoteScheduled j ∈ w.threads thread → j.id ≠ k

/-- Every step lets the job wait on. -/
theorem Waits.step {k : UUID} {t : Time} (waits : Waits k t w) (enabled : a.Enabled w) :
    Waits k t (w.step env a) := by
  -- The clock does not go back, so the job was waiting before the step too.
  refine ⟨World.drawn_step waits.drawn, fun early row stored => ?_, fun early thread j listed => ?_⟩
  · have before := Int.lt_of_le_of_lt (World.now_step env enabled) early
    rcases World.step_row env w a k with same | ⟨op, called, step⟩
    · exact waits.row before row (same ▸ stored)
    · cases found : w.db.jobs.find? k with
      | none =>
        -- The identifier is taken, so no new row can appear under it.
        exact absurd waits.drawn (World.fresh_row enabled found stored).2
      | some old =>
        obtain ⟨state, runAt⟩ := waits.row before old found
        rw [found, stored] at step
        -- Of all effects only the promotion applies to a scheduled row, and nobody is about to.
        cases step with
        | keep => exact ⟨state, runAt⟩
        | promoteScheduled =>
          cases Action.makes called with
          | promoteScheduled head =>
            have listed := head ▸ List.mem_cons_self
            exact absurd rfl (waits.unread before _ _ listed)
        | claim other | promoteFailed other | replay other | cmdReplay other | start _ other =>
          simp [state] at other
        | extend _ live | complete _ live | completeRow _ live | fail _ live =>
          simp [state, State.inFlight] at live
        | requeue late => simp [Job.expired, state, State.inFlight] at late
        | forceFail unspared => simp [state] at unspared
  · have before := Int.lt_of_le_of_lt (World.now_step env enabled) early
    rcases World.promoteScheduled_inv enabled listed with old | ⟨found, -, due⟩
    · exact waits.unread before thread j old
    · -- A row that was read as due is not this one, whose time is still to come.
      rintro rfl
      rw [(waits.row before j found).2] at due
      exact absurd before (Int.not_lt.mpr due)

/-- A step that stores the job as scheduled for the given time. -/
def schedulesAt (k : UUID) (t : Time) (e : Step World Action) : Prop :=
  e.pre.db.jobs.find? k = none ∧
    ∃ row, e.post.db.jobs.find? k = some row ∧ row.state = .scheduled ∧ row.runAt = t

/-- A job that has just been stored waits for its time. -/
theorem Waits.of_schedulesAt {k : UUID} {t : Time} (known : Known w) (enabled : a.Enabled w)
    (stored : schedulesAt k t ⟨w, a, w.step env a⟩) : Waits k t (w.step env a) := by
  obtain ⟨absent, row, found, state, runAt⟩ := stored
  -- The identifier was drawn in this very step.
  obtain ⟨drawn, fresh⟩ := World.fresh_row enabled absent found
  refine ⟨List.mem_append_left _ drawn, fun _ other located => ?_, fun _ thread j listed => ?_⟩
  · rw [found, Option.some.injEq] at located
    exact located ▸ ⟨state, runAt⟩
  · -- Whatever a thread remembers was drawn or stored before.
    rintro rfl
    rcases World.promoteScheduled_inv enabled listed with old | ⟨located, -⟩
    · exact fresh (known.tasks thread j old)
    · rw [absent] at located
      cases located

/-- A job stored as scheduled for some time is not claimed before that time. -/
theorem scheduled_not_claimed_early {past : List (Step World Action)} (run : Reaches env past w)
    (earlier : List (Step World Action)) {e : Step World Action} {later : List (Step World Action)}
    (taken : past = earlier ++ e :: later) {k : UUID} {t : Time} (stored : schedulesAt k t e) :
    ∀ x ∈ later, claimsJob k x = true → t ≤ x.pre.now := by
  obtain ⟨start, run⟩ := run
  subst taken
  obtain ⟨before, ⟨enabled, made⟩, after⟩ := run.at_step
  intro x listed claimed
  obtain ⟨⟨between, reached⟩, -⟩ := after.of_mem listed
  -- The job has been waiting from its insertion up to the claim.
  have waits : Waits k t x.pre := by
    refine reached.invariant (Waits k t) ?_ ?_
    · rw [made]
      refine Waits.of_schedulesAt (known_of_run before) enabled ?_
      rw [← made]
      exact stored
    · rintro w a w' waits ⟨enabled, rfl⟩
      exact waits.step enabled
  -- A claim finds the job pending, which it is not before its time.
  obtain ⟨row, found, pending⟩ := claimsJob_row claimed
  by_contra early
  have state := (waits.row (Int.not_le.mp early) row found).1
  rw [pending] at state
  cases state

/-- A submission that asks to run at time one hundred. -/
def delayedRequest : SubmitJobRequest :=
  { SubmitJobRequest.hook with runAt := some 100 }

/-- A leader promotes the delayed job once it is due, and a worker claims it. -/
def delayedRun : List Action :=
  let j := (submittedJob 7 delayedRequest 1 0).inserted
  [.submit 0 7 delayedRequest 1 0, .poll 1 .pollScheduledJobs [], .tick 100,
    .poll 1 .pollScheduledJobs [j], .exec 1 2 100, .exec 1 3 100, .tryClaim 1 "w" 21 160 11 100]

theorem scheduled_not_claimed_early_due :
    ∃ x ∈ worldTrace (fun _ => .everyMinute) 0 delayedRun, claimsJob 1 x = true ∧
      100 ≤ x.pre.now := by
  have run := reaches_worldTrace (fun _ => .everyMinute) 0 delayedRun (by decide +kernel)
  obtain ⟨x, listed, claimed⟩ : ∃ x ∈ (worldTrace (fun _ => .everyMinute) 0 delayedRun).tail,
      claimsJob 1 x = true := List.any_eq_true.mp (by decide +kernel)
  refine ⟨x, List.mem_of_mem_tail listed, claimed,
    scheduled_not_claimed_early run [] rfl ⟨?_, ?_⟩ x listed claimed⟩
  · decide +kernel
  · exact ⟨(submittedJob 7 delayedRequest 1 0).inserted, by decide +kernel, rfl, rfl⟩

end Sluice
