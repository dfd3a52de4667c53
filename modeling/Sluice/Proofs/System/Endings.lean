import Sluice.Proofs.Attempts
import Sluice.Proofs.System.Backoff
import Sluice.Proofs.System.Scheduled
import Sluice.Transition.Endless

/-! Every job ends if the processes go on serving it. -/

namespace Sluice

open Relational Transition

variable {env : Nat → Env} {past : List (Step World Action)} {w : World} {a : Action} {k : UUID}

/-- How often the state of a job may still change before it is finished. -/
def Job.changesLeft (j : Job) : Nat :=
  -- Each attempt that is left takes a job around once: pending, claimed, running, failed.
  let around := 4 * (max 1 j.maxRetries - j.attempt).toNat
  match j.state with
  | .scheduled | .failed => around
  | .pending => around - 1
  | .claimed => around - 2
  | .running => around - 3
  | .succeeded | .dead => 0

/-- The state of a job, if it is stored. -/
def World.stateOf (w : World) (k : UUID) : Option State := (w.db.jobs.find? k).map Job.state

/-- How often the state of a stored job may still change. -/
def World.changesLeft (w : World) (k : UUID) : Nat := (w.db.jobs.find? k).elim 0 Job.changesLeft

/-- A step that gives a job a second life. -/
def revives (env : Nat → Env) (k : UUID) (e : Step World Action) : Bool :=
  match e.label.op env e.pre with
  | some (.replayJob id tenantID) => (Op.replayJob id tenantID).opens k e.pre.db
  | some (.cmdReplay id) => (Op.cmdReplay id).opens k e.pre.db
  | _ => false

/-- An unfinished job has a change left. -/
theorem Job.changesLeft_pos {j : Job} (remaining : j.attempt < max 1 j.maxRetries)
    (unfinished : j.isTerminal = false) : 0 < j.changesLeft := by
  unfold Job.changesLeft
  cases state : j.state <;> simp [Job.isTerminal, state] at unfinished ⊢ <;> omega

/-- An attempt that is lost takes the job to the next one, or ends it. -/
theorem Job.changesLeft_lost {old row : Job} (remaining : old.attempt < max 1 old.maxRetries)
    (live : old.state = .claimed ∨ old.state = .running) (counted : row.attempt = old.attempt + 1)
    (limit : row.maxRetries = old.maxRetries)
    (left : row.state = .dead ∨
      (row.state = .pending ∨ row.state = .failed) ∧ row.attempt < row.maxRetries) :
    row.changesLeft < old.changesLeft := by
  unfold Job.changesLeft
  rcases live with live | live <;> rcases left with left | ⟨left | left, more⟩ <;>
    simp only [live, left, counted, limit] at * <;> omega

/-- A change of the state uses up one of those that were left, unless the job is replayed. -/
theorem RowStep.changesLeft {op : Op} {old : Job} {after : Option Job}
    (step : RowStep k op (some old) after)
    (remaining : old.state ≠ .dead → old.attempt < max 1 old.maxRetries) :
    after.elim 0 Job.changesLeft < old.changesLeft ∨
      (after.map Job.state = some old.state ∧ after.elim 0 Job.changesLeft = old.changesLeft) ∨
      ((∃ tenantID, op = .replayJob k tenantID) ∨ op = .cmdReplay k) ∧ after ≠ some old := by
  cases step with
  | replay dead => exact .inr (.inr ⟨.inl ⟨_, rfl⟩, by simpa using replayRow_ne dead⟩)
  | cmdReplay dead => exact .inr (.inr ⟨.inr rfl, by simpa using replayRow_ne dead⟩)
  | keep | extend => exact .inr (.inl ⟨rfl, rfl⟩)
  | claim waiting | start _ waiting | promoteScheduled waiting | promoteFailed waiting =>
    left
    have more := remaining (by simp [waiting])
    simp only [Option.elim_some, Job.changesLeft, claimRow, waiting]
    omega
  | complete held live | completeRow held live =>
    left
    rw [State.inFlight_iff] at live
    refine Job.changesLeft_pos (remaining ?_) ?_
    · rcases live with live | live <;> simp [live]
    · rcases live with live | live <;> simp [Job.isTerminal, live]
  | fail held live =>
    left
    rw [State.inFlight_iff] at live
    refine Job.changesLeft_lost (remaining ?_) live rfl rfl ?_
    · rcases live with live | live <;> simp [live]
    · simp only [failRow, failState]
      split
      · exact .inl rfl
      · exact .inr ⟨.inr rfl, by omega⟩
  | requeue late =>
    left
    simp only [Job.expired, Bool.and_eq_true, State.inFlight_iff] at late
    refine Job.changesLeft_lost (remaining ?_) late.1 rfl rfl ?_
    · rcases late.1 with live | live <;> simp [live]
    · simp only [requeueRow]
      split
      · exact .inl rfl
      · exact .inr ⟨.inl rfl, by omega⟩
  | cancel waiting =>
    left
    refine Job.changesLeft_pos (remaining ?_) ?_
    · rcases waiting with waiting | waiting <;> simp [waiting]
    · rcases waiting with waiting | waiting <;> simp [Job.isTerminal, waiting]
  | forceFail unspared =>
    left
    refine Job.changesLeft_pos (remaining unspared.2.2) ?_
    cases state : old.state <;> simp_all [Job.isTerminal]

/-- The same for the steps of the system, once the identifier of the job is drawn. -/
theorem World.changesLeft_step (reached : Reaches env past w) (enabled : a.Enabled w)
    (drawn : k ∈ w.drawn) (single : revives env k ⟨w, a, w.step env a⟩ = false) :
    (w.step env a).changesLeft k < w.changesLeft k ∨
      (w.step env a).stateOf k = w.stateOf k ∧
        (w.step env a).changesLeft k = w.changesLeft k := by
  unfold World.changesLeft World.stateOf
  cases before : w.db.jobs.find? k with
  | none =>
    cases after : (w.step env a).db.jobs.find? k with
    | none => exact .inr ⟨rfl, rfl⟩
    | some row => exact absurd drawn (World.fresh_row enabled before after).2
  | some old =>
    rcases World.step_row env w a k with same | ⟨op, called, step⟩
    · rw [same, before]
      exact .inr ⟨rfl, rfl⟩
    · obtain ⟨calls, made⟩ := reached.calls
      have changed := step
      rw [before] at changed
      rcases changed.changesLeft ((made.audited k).row old before).remaining with
        less | same | ⟨replay, effect⟩
      · exact .inl less
      · exact .inr same
      · -- A replay that changes the row is one that was excluded.
        rw [World.step_db_some called, ← before] at effect
        have opened := Op.opens_of_change (.inr replay) effect
        rcases replay with ⟨tenantID, rfl⟩ | rfl <;> simp [revives, called, opened] at single

/-- A job that stays in one state in a worker's hands stays under the same claim. -/
theorem RowStep.token_of_state {op : Op} {old new : Job} (step : RowStep k op (some old) (some new))
    (live : old.state.inFlight = true) (same : new.state = old.state) :
    new.claimToken = old.claimToken := by
  rw [State.inFlight_iff] at live
  cases step with
  | keep | extend => rfl
  | fail =>
    simp only [failRow, failState] at same
    split at same <;> simp [← same] at live
  | requeue =>
    simp only [requeueRow] at same
    split at same <;> simp [← same] at live
  | claim waiting | promoteScheduled waiting | promoteFailed waiting => simp [waiting] at live
  | start _ fresh => simp [fresh] at same
  | _ => simp [← same, succeedRow, replayRow, forceFailRow] at live

/--
What it takes to serve a job.

A due job is promoted at some time, a worker takes a pending one from its queue, and a claim ends,
through its worker or through the reaper.
-/
structure Served (env : Nat → Env) (k : UUID) (run : Endless (Next env)) : Prop where
  promoted : run.WeaklyFair (·.stateOf k = some .scheduled) fun e =>
    e.label.op env e.pre = some (.promoteScheduledToPending k)
  retried : run.WeaklyFair (·.stateOf k = some .failed) fun e =>
    ∃ now, e.label.op env e.pre = some (.promoteFailedToPending k now)
  claimed : run.WeaklyFair (·.stateOf k = some .pending) fun e =>
    ∃ workerID token deadline runID now,
      e.label.op env e.pre = some (.tryClaim k workerID token deadline runID now)
  released : run.WeaklyFair (fun w => ∃ s, w.stateOf k = some s ∧ s.inFlight = true) fun e =>
    ∀ old new, e.pre.db.jobs.find? k = some old → e.post.db.jobs.find? k = some new →
      new.claimToken ≠ old.claimToken

theorem promoteScheduled_moves (waiting : w.stateOf k = some .scheduled)
    (called : a.op env w = some (.promoteScheduledToPending k)) :
    (w.step env a).stateOf k = some .pending := by
  obtain ⟨row, found, state⟩ := Option.map_eq_some_iff.mp waiting
  simp [World.stateOf, World.step_db_some called, Op.apply, promoteScheduledToPending, found, state,
    Table.key_of_find? found]

theorem promoteFailed_moves {now : Time} (waiting : w.stateOf k = some .failed)
    (called : a.op env w = some (.promoteFailedToPending k now)) :
    (w.step env a).stateOf k = some .pending := by
  obtain ⟨row, found, state⟩ := Option.map_eq_some_iff.mp waiting
  simp [World.stateOf, World.step_db_some called, Op.apply, promoteFailedToPending, found, state,
    Table.key_of_find? found]

theorem tryClaim_moves {workerID : String} {token runID : UUID} {deadline now : Time}
    (waiting : w.stateOf k = some .pending)
    (called : a.op env w = some (.tryClaim k workerID token deadline runID now)) :
    (w.step env a).stateOf k = some .claimed := by
  obtain ⟨row, found, state⟩ := Option.map_eq_some_iff.mp waiting
  obtain ⟨_, _, _, _, _, _, -, -, -, after, -⟩ :=
    Op.claims_inv (Op.claims_of_pending found state workerID token deadline runID now)
  rw [World.stateOf, World.step_db_some called, after]
  rfl

/-- A job that is served does not rest before it is finished. -/
theorem Served.finished {run : Endless (Next env)} (served : Served env k run) {N : Nat}
    (rests : ∀ n ≥ N, (run.state n).stateOf k = (run.state N).stateOf k) :
    (run.state N).stateOf k = none ∨ (run.state N).stateOf k = some .succeeded ∨
      (run.state N).stateOf k = some .dead := by
  have stays : ∀ n ≥ N, ((run.state n).step env (run.label n)).stateOf k =
      (run.state N).stateOf k := by
    intro n after
    rw [← (run.made n).2]
    exact rests (n + 1) (Nat.le_succ_of_le after)
  -- In each of the other states some call is made that the job does not survive in this state.
  have held : ∀ s, (run.state N).stateOf k = some s → s.inFlight ≠ true := by
    intro s last live
    obtain ⟨n, after, ended⟩ := served.released N fun n after =>
      ⟨s, (rests n after).trans last, live⟩
    have before := (rests n after).trans last
    have kept := (stays n after).trans last
    obtain ⟨old, found, state⟩ := Option.map_eq_some_iff.mp before
    obtain ⟨new, found', state'⟩ := Option.map_eq_some_iff.mp kept
    refine ended old new found (by rw [Endless.step, (run.made n).2]; exact found') ?_
    rcases World.step_row env (run.state n) (run.label n) k with same | ⟨op, -, step⟩
    · rw [same, found, Option.some.injEq] at found'
      rw [found']
    · rw [found, found'] at step
      exact step.token_of_state (state ▸ live) (state'.trans state.symm)
  cases last : (run.state N).stateOf k with
  | none => exact .inl rfl
  | some s =>
    cases s with
    | succeeded => exact .inr (.inl rfl)
    | dead => exact .inr (.inr rfl)
    | claimed | running => exact absurd rfl (held _ last)
    | scheduled =>
      obtain ⟨n, after, called⟩ := served.promoted N fun n after => (rests n after).trans last
      have moved := promoteScheduled_moves ((rests n after).trans last) called
      rw [Endless.step, stays n after, last] at moved
      cases moved
    | failed =>
      obtain ⟨n, after, now, called⟩ := served.retried N fun n after => (rests n after).trans last
      have moved := promoteFailed_moves ((rests n after).trans last) called
      rw [Endless.step, stays n after, last] at moved
      cases moved
    | pending =>
      obtain ⟨n, after, _, _, _, _, _, called⟩ :=
        served.claimed N fun n after => (rests n after).trans last
      have moved := tryClaim_moves ((rests n after).trans last) called
      rw [Endless.step, stays n after, last] at moved
      cases moved

/--
A job that is not replayed ends if the processes go on serving it.

However the system goes on for ever, the job comes to rest as succeeded, dead or cancelled, and
until then its state changes at most four times for each attempt that its retry limit grants.
-/
theorem job_ends {run : Endless (Next env)} (reached : Reaches env past (run.state 0)) {row : Job}
    (stored : (run.state 0).db.jobs.find? k = some row)
    (single : ∀ n, revives env k (run.step n) = false) (served : Served env k run) :
    (∀ n, (List.range n).countP (fun i => decide
      ((run.state (i + 1)).stateOf k ≠ (run.state i).stateOf k)) ≤ row.changesLeft) ∧
    ∃ N last, (last = none ∨ last = some .succeeded ∨ last = some .dead) ∧
      ∀ n ≥ N, (run.state n).stateOf k = last := by
  obtain ⟨start, before⟩ := reached
  have drawn : ∀ n ≥ 0, k ∈ (run.state n).drawn := by
    refine run.onward (k ∈ ·.drawn) ((known_of_run before).rows k row stored) ?_
    rintro w a w' drawn ⟨-, rfl⟩
    exact World.drawn_step drawn
  have steps : ∀ n, (run.state (n + 1)).changesLeft k < (run.state n).changesLeft k ∨
      (run.state (n + 1)).stateOf k = (run.state n).stateOf k ∧
        (run.state (n + 1)).changesLeft k = (run.state n).changesLeft k := by
    intro n
    obtain ⟨enabled, made⟩ := run.made n
    have spared := single n
    rw [Endless.step, made] at spared
    rw [made]
    exact World.changesLeft_step ⟨start, before.append (run.beginning n)⟩ enabled
      (drawn n (Nat.zero_le n)) spared
  constructor
  · -- The changes made and those still left add up to no more than there were at first.
    have spent : ∀ n, (List.range n).countP (fun i => decide
        ((run.state (i + 1)).stateOf k ≠ (run.state i).stateOf k)) +
          (run.state n).changesLeft k ≤ row.changesLeft := by
      intro n
      induction n with
      | zero => simp [World.changesLeft, stored]
      | succ n ih =>
        rw [List.range_succ, List.countP_append, List.countP_singleton]
        rcases steps n with less | ⟨same, left⟩
        · split <;> omega
        · rw [if_neg (by simp [same])]
          omega
    exact fun n => Nat.le_of_add_right_le (spent n)
  · have shrinks : ∀ n, (run.state (n + 1)).changesLeft k ≤ (run.state n).changesLeft k := by
      intro n
      rcases steps n with less | ⟨-, same⟩ <;> omega
    obtain ⟨N, rests⟩ := run.settles (World.stateOf · k) (World.changesLeft · k) shrinks
      fun n changed => (steps n).resolve_right fun same => changed same.1
    exact ⟨N, _, served.finished rests, rests⟩

/-- The system may wait for a while. -/
theorem next_tick (env : Nat → Env) (w : World) : Next env w (.tick w.now) w :=
  ⟨Int.le_refl w.now, rfl⟩

/-- A worker takes the job up again after its first failure, and completes it. -/
def secondAttempt : List Action :=
  retriedRun.tail ++ [.tryClaim 1 "w" 22 (200 * second) 12 (62 * second),
    .completeRow ⟨1, 22, 12⟩ (62 * second)]

/-- The system with the submitted job. -/
def submittedWorld : World := afterActions (fun _ => .everyMinute) 0 (retriedRun.take 1)

/-- The checked steps of the second attempt. -/
theorem secondAttempt_checked :
    (trace (World.step fun _ => .everyMinute) submittedWorld secondAttempt).all
      (fun e => e.label.check e.pre) = true := by decide +kernel

/-- The job is submitted, retried and completed, after which nothing happens any more. -/
def completedForever : Endless (Next fun _ => .everyMinute) :=
  .extend (run_of_check (fun _ => .everyMinute) submittedWorld secondAttempt secondAttempt_checked)
    (next_tick _ _)

/-- The last of its eleven steps completes the job. -/
theorem completedForever_rests {n : Nat} (beyond : n ≥ 11) :
    (completedForever.state n).stateOf 1 = some .succeeded := by
  have done : (trace (World.step fun _ => .everyMinute) submittedWorld secondAttempt).length ≤ n :=
    beyond
  rw [completedForever, Endless.extend_state_of_le _ _ done]
  decide +kernel

theorem completedForever_served : Served (fun _ => .everyMinute) 1 completedForever := by
  -- The job is completed in the end, so that nothing is left to be done.
  constructor <;> refine Endless.weaklyFair_of_not _ (M := 11) fun n beyond => ?_
  case released =>
    rintro ⟨s, state, live⟩
    rw [completedForever_rests beyond] at state
    cases state
    cases live
  all_goals
    rw [completedForever_rests beyond]
    exact nofun

theorem completedForever_single (n : Nat) :
    revives (fun _ => .everyMinute) 1 (completedForever.step n) = false := by
  have checked : (trace (World.step fun _ => .everyMinute) submittedWorld secondAttempt).all
      (fun e => !revives (fun _ => .everyMinute) 1 e) = true := by decide +kernel
  rw [completedForever]
  rcases Endless.extend_step (run_of_check (fun _ => .everyMinute) submittedWorld secondAttempt
    secondAttempt_checked) (next_tick _ _) n with listed | idle
  · simpa using List.all_eq_true.mp checked _ listed
  · rw [idle]
    rfl

theorem job_ends_retried :
    ∃ N last, (last = none ∨ last = some .succeeded ∨ last = some .dead) ∧
      ∀ n ≥ N, (completedForever.state n).stateOf 1 = last := by
  have reached : Reaches (fun _ => .everyMinute) _ (completedForever.state 0) :=
    reaches_worldTrace (fun _ => .everyMinute) 0 (retriedRun.take 1) (by decide +kernel)
  have stored : (completedForever.state 0).db.jobs.find? 1 =
      some (submittedJob 7 .hook 1 0).inserted := by decide +kernel
  exact (job_ends reached stored completedForever_single completedForever_served).2

end Sluice
