import Sluice.Proofs.System.Backoff
import Sluice.Proofs.System.Scheduled

/-! Jobs on their way to a worker are due, unless a replay resets one before its time. -/

namespace Sluice

open Relational Transition

variable {env : Nat → Env} {w : World} {a : Action}

/-- Every job that is pending, claimed, or running has reached its run time. -/
def ActiveDue (w : World) : Prop :=
  ∀ k row, w.db.jobs.find? k = some row → (row.state = .pending ∨ row.state.inFlight = true) →
    row.runAt ≤ w.now

/-- The dead job that an action resets, as it is stored before. -/
def Action.resets (w : World) : Action → Option Job
  | replayJob _ jobID tenantID => (w.db.jobs.find? jobID).filter (replayable jobID tenantID)
  | exec thread _ _ =>
    match w.threads thread with
    | .replay j :: _ => (w.db.jobs.find? j.id).filter fun row => row.state == .dead
    | _ => none
  | _ => none

/-- A replay of a dead job whose run time is still to come. -/
def replaysEarly (e : Step World Action) : Bool :=
  (e.label.resets e.pre).any fun row => decide (e.pre.now < row.runAt)

/-- A job that a thread is about to promote is due if it is still scheduled. -/
def PromotionsDue (w : World) : Prop :=
  ∀ thread j, Task.promoteScheduled j ∈ w.threads thread →
    ∀ row, w.db.jobs.find? j.id = some row → row.state = .scheduled → row.runAt ≤ w.now

/-- A row that is scheduled after a call was so before, or it has just been inserted. -/
theorem RowStep.scheduled_inv {k : UUID} {op : Op} {before : Option Job} {row : Job}
    (step : RowStep k op before (some row)) (waiting : row.state = .scheduled) :
    before = some row ∨ before = none := by
  cases step with
  | keep => exact .inl rfl
  | insert => exact .inr rfl
  | @extend old _ _ _ live =>
    -- Only the deadline has changed, and a scheduled row has none to extend.
    have state : old.state = .scheduled := waiting
    simp [state, State.inFlight] at live
  | fail =>
    simp only [failRow, failState] at waiting
    split at waiting <;> cases waiting
  | requeue =>
    simp only [requeueRow] at waiting
    split at waiting <;> cases waiting
  | _ => cases waiting

/-- A row that is scheduled after a step was so before, or it has just been inserted. -/
theorem World.scheduled_row {k : UUID} {row : Job}
    (stored : (w.step env a).db.jobs.find? k = some row) (waiting : row.state = .scheduled) :
    w.db.jobs.find? k = some row ∨ w.db.jobs.find? k = none := by
  rcases World.step_row env w a k with same | ⟨op, -, step⟩
  · exact .inl (same ▸ stored)
  · rw [stored] at step
    exact step.scheduled_inv waiting

/-- Every step leaves the promotions due. -/
theorem PromotionsDue.step (due : PromotionsDue w) (known : Known w) (enabled : a.Enabled w) :
    PromotionsDue (w.step env a) := by
  intro thread j listed row stored waiting
  refine Int.le_trans ?_ (World.now_step env enabled)
  rcases World.promoteScheduled_inv enabled listed with old | ⟨found, -, runAt⟩
  · rcases World.scheduled_row stored waiting with before | absent
    · exact due thread j old row before waiting
    · -- The identifier was drawn long ago, so the row cannot be new.
      exact absurd (known.tasks thread j old) (World.fresh_row enabled absent stored).2
  · rcases World.scheduled_row stored waiting with before | absent
    · -- The job has been read as it stands.
      rw [found, Option.some.injEq] at before
      exact before ▸ runAt
    · rw [found] at absent
      cases absent

/-- The promotions are due throughout every run. -/
theorem promotionsDue_of_run {start : Time} {past : List (Step World Action)}
    (run : Run (Next env) (World.init start) past w) : PromotionsDue w := by
  refine run.history (fun _ w => PromotionsDue w) ?_ ?_
  · intro thread j listed
    cases listed
  · rintro past w a w' run due ⟨enabled, rfl⟩
    exact due.step (known_of_run run) enabled

/-- A reset makes the job pending and leaves its run time. -/
theorem World.resets_row {row : Job} (reset : a.resets w = some row) :
    (w.step env a).db.jobs.find? row.id = some (replayRow row) ∧ (w.step env a).now = w.now := by
  -- The request and the command reset the same columns under different conditions.
  cases a with
  | replayJob thread jobID tenantID =>
    obtain ⟨found, hit⟩ := Option.filter_eq_some_iff.mp reset
    have named := Table.key_of_find? found
    rw [World.step_db_some (rfl : Action.op env w (.replayJob thread jobID tenantID) = _)]
    refine ⟨?_, rfl⟩
    rw [named, Op.apply, replayJob_row, found, Option.map_some, if_pos hit]
  | exec thread id clock =>
    simp only [Action.resets] at reset
    split at reset
    · rename_i j rest head
      obtain ⟨found, dead⟩ := Option.filter_eq_some_iff.mp reset
      have named := Table.key_of_find? found
      have called : Action.op env w (.exec thread id clock) = some (.cmdReplay j.id) := by
        simp [Action.op, head, Task.op]
      rw [World.step_db_some called]
      refine ⟨?_, rfl⟩
      rw [named, Op.apply, cmdReplay_row, found, Option.map_some, if_pos (by simpa using dead)]
    · cases reset
  | _ => cases reset

/-- A dead row that a replay has made pending is one that the action resets. -/
theorem World.resets_of_row {k : UUID} {row : Job} {op : Op} (called : a.op env w = some op)
    (replay : op = .cmdReplay k ∨ ∃ tenantID, op = .replayJob k tenantID)
    (found : w.db.jobs.find? k = some row) (dead : row.state = .dead)
    (changed : (w.step env a).db.jobs.find? k = some (replayRow row)) :
    a.resets w = some row := by
  rcases replay with rfl | ⟨tenantID, rfl⟩
  · cases Action.makes called with
    | replay head => simp [Action.resets, head, found, dead]
  · rw [World.step_db_some called, Op.apply, replayJob_row, found] at changed
    cases hit : replayable k tenantID row with
    | true =>
      cases Action.makes called with
      | replayJob => simp [Action.resets, found, Option.filter_some, hit]
    | false =>
      -- A replay for another tenant would have left the row dead.
      simp only [Option.map_some, hit, Bool.false_eq_true, if_false, Option.some.injEq] at changed
      rw [changed] at dead
      cases dead

/-- A new row that is pending is due. -/
theorem World.inserted_due {j : Job} (called : a.op env w = some (.insertJob j))
    (enabled : a.Enabled w) (active : j.state = .pending ∨ j.state.inFlight = true) :
    j.runAt ≤ w.now := by
  cases Action.makes called with
  | @submit _ _ req _ clock =>
    -- A delayed job is scheduled, and any other one gets the time of its submission.
    cases delayed : req.delayed clock with
    | true => simp [submittedJob, delayed, State.inFlight] at active
    | false =>
      simp only [submittedJob, delayed, Bool.false_eq_true, if_false]
      exact enabled.2.2
  | fire head fired =>
    obtain ⟨next, template, -, rfl, -⟩ := fireSchedule_inv fired
    exact enabled.2.1

/-- A step leaves every active job due exactly if it does not replay one before its time. -/
theorem ActiveDue.step_iff (due : ActiveDue w) (promotions : PromotionsDue w)
    (enabled : a.Enabled w) :
    ActiveDue (w.step env a) ↔ replaysEarly ⟨w, a, w.step env a⟩ = false := by
  simp only [replaysEarly, Option.any_eq_false, decide_eq_false_iff_not, Int.not_lt]
  constructor
  · -- The job that a step resets is active afterwards.
    intro after row reset
    obtain ⟨stored, now⟩ := World.resets_row reset
    exact now ▸ after row.id (replayRow row) stored (.inl rfl)
  · intro timely k row stored active
    refine Int.le_trans ?_ (World.now_step env enabled)
    rcases World.step_row env w a k with same | ⟨op, called, step⟩
    · exact due k row (same ▸ stored) active
    · cases found : w.db.jobs.find? k with
      | none =>
        rw [found, stored] at step
        cases step with
        | insert named =>
          -- An insertion leaves the columns of the run time and the state as they are.
          have timely := World.inserted_due called enabled active
          exact timely
      | some old =>
        -- The calls that make a job active find it active before, or they look at its run time.
        have before := due k old found
        rw [found, stored] at step
        cases step with
        | keep => exact before active
        | claim waiting => exact before (.inl waiting)
        | start _ fresh => exact before (.inr (by simp [fresh, State.inFlight]))
        | extend _ live => exact before (.inr live)
        | requeue late =>
          simp only [Job.expired, Bool.and_eq_true] at late
          exact before (.inr late.1)
        | promoteScheduled waiting =>
          -- The leader has read the job when it was due, however long ago.
          cases Action.makes called with
          | promoteScheduled head =>
            exact promotions _ _ (head ▸ List.mem_cons_self) old found waiting
        | promoteFailed =>
          -- The promotion sets the run time to the present.
          cases Action.makes called with
          | promoteFailed => exact Int.le_refl _
        | replay dead =>
          exact timely old (World.resets_of_row called (.inr ⟨_, rfl⟩) found dead stored)
        | cmdReplay dead =>
          exact timely old (World.resets_of_row called (.inl rfl) found dead stored)
        | fail =>
          simp only [failRow, failState] at active
          split at active <;> simp [State.inFlight] at active
        | _ => simp [succeedRow, forceFailRow, State.inFlight] at active

/-- A row that stays pending keeps its run time. -/
theorem RowStep.pending_kept {k : UUID} {op : Op} {old new : Job}
    (step : RowStep k op (some old) (some new)) (before : old.state = .pending)
    (after : new.state = .pending) : new.runAt = old.runAt := by
  cases step with
  | promoteFailed state => simp [before] at state
  | fail _ live => simp [before, State.inFlight] at live
  -- The other calls leave the run time alone.
  | _ => rfl

/-- The job is stored and pending. -/
def World.pending (w : World) (k : UUID) : Bool :=
  (w.db.jobs.find? k).any fun row => row.state == .pending

/-- The row of a job that is pending. -/
theorem World.pending_iff {k : UUID} :
    w.pending k = true ↔ ∃ row, w.db.jobs.find? k = some row ∧ row.state = .pending := by
  simp [World.pending, Option.any_eq_true]

/-- A job that stays pending keeps the run time it became pending with. -/
theorem World.pending_runAt {s : World} {past : List (Step World Action)}
    (run : Run (Next env) s past w) {k : UUID} {row : Job} (found : s.db.jobs.find? k = some row)
    (pending : row.state = .pending) (stays : ∀ e ∈ past, e.post.pending k = true) :
    ∃ now, w.db.jobs.find? k = some now ∧ now.state = .pending ∧ now.runAt = row.runAt := by
  -- The row is pending after each step, so none of them has claimed or deleted it.
  induction run with
  | nil => exact ⟨row, found, pending, rfl⟩
  | @snoc past w w' a run step ih =>
    simp only [List.forall_mem_append, List.forall_mem_singleton] at stays
    obtain ⟨old, located, waiting, same⟩ := ih stays.1
    obtain ⟨new, stored, still⟩ := World.pending_iff.mp stays.2
    obtain ⟨-, rfl⟩ := step
    refine ⟨new, stored, still, ?_⟩
    rcases World.step_row env w a k with kept | ⟨op, -, step⟩
    · rw [kept, located, Option.some.injEq] at stored
      rw [← stored, same]
    · rw [located, stored] at step
      rw [step.pending_kept waiting still, same]

/--
Pending, claimed, and running jobs are due all along exactly if no dead job is replayed early.

The reconciler then finds each job that has been pending for a minute.
-/
theorem active_due_iff {past : List (Step World Action)} (run : Reaches env past w) :
    ((∀ e ∈ past, ActiveDue e.post) ↔ ∀ e ∈ past, replaysEarly e = false) ∧
      ((∀ e ∈ past, replaysEarly e = false) →
        ∀ earlier e later, past = earlier ++ e :: later →
          ∀ k, (∀ x ∈ e :: later, x.post.pending k = true) → e.post.now + minute ≤ w.now →
            ∃ row, w.db.jobs.find? k = some row ∧
              ∀ limit, (getPendingJobs limit w.now).holds row = true) := by
  obtain ⟨start, run⟩ := run
  have always : (∀ e ∈ past, ActiveDue e.post) ↔ ∀ e ∈ past, replaysEarly e = false := by
    refine run.always_iff ActiveDue replaysEarly ?_ ?_
    · intro k row found
      cases found
    · rintro past w a w' run due ⟨enabled, rfl⟩
      exact due.step_iff (promotionsDue_of_run run) enabled
  refine ⟨always, ?_⟩
  rintro timely earlier e later rfl k stays elapsed
  -- The job was due when it became pending, and it has kept its run time since.
  obtain ⟨-, -, after⟩ := run.at_step
  simp only [List.forall_mem_cons] at stays
  obtain ⟨row, found, pending⟩ := World.pending_iff.mp stays.1
  have due := always.mpr timely e (by simp) k row found (.inl pending)
  obtain ⟨now, stored, still, same⟩ := World.pending_runAt after found pending stays.2
  refine ⟨now, stored, fun limit => ?_⟩
  simp only [getPendingJobs, still, beq_self_eq_true, Bool.true_and, decide_eq_true_eq, same]
  lia

/-- A job that was retried stays pending for a minute. -/
def neglectedRetry : List Action := retriedRun ++ [.tick (122 * second)]

theorem active_due_neglected :
    (∀ e ∈ worldTrace (fun _ => .everyMinute) 0 neglectedRetry, ActiveDue e.post) ∧
      ∃ row, (afterActions (fun _ => .everyMinute) 0 neglectedRetry).db.jobs.find? 1 = some row ∧
        ∀ limit, (getPendingJobs limit (122 * second)).holds row = true := by
  have run := reaches_worldTrace (fun _ => .everyMinute) 0 neglectedRetry (by decide +kernel)
  have timely : ∀ e ∈ worldTrace (fun _ => .everyMinute) 0 neglectedRetry,
      replaysEarly e = false := by decide +kernel
  -- The promotion is the ninth step.
  exact ⟨(active_due_iff run).1.mpr timely, (active_due_iff run).2 timely
    ((worldTrace (fun _ => .everyMinute) 0 neglectedRetry).take 8) _ _ rfl 1 (by decide +kernel)
    (by decide +kernel)⟩

/-- A failed job is given up by an operator during its backoff and replayed by its tenant. -/
def earlyReplay : List Action :=
  firstFailure ++ [.cmdForceFail 1, .replayJob 0 1 7]

theorem active_not_due :
    ¬ ∀ (env : Nat → Env) (past : List (Step World Action)) (w : World), Reaches env past w →
      ActiveDue w := by
  intro due
  have run := reaches_worldTrace (fun _ => .everyMinute) 0 earlyReplay (by decide +kernel)
  -- The job is pending at second one and asks for second sixty-one.
  have late := due _ _ _ run 1 (replayRow (forceFailRow failedOnce)) (by decide +kernel) (.inl rfl)
  exact absurd late (by decide +kernel)

end Sluice
