import Sluice.Proofs.Election
import Sluice.Proofs.System.Activations
import Sluice.System.Cluster

/-! Cron schedules under an election: as long as no session expires, none fires twice. -/

namespace Sluice

open Coordination Relational Transition

variable {env : Nat → Env}

/-- The activation of a schedule that a step fires, if it does. -/
def firedActivation (env : Nat → Env) (k : UUID) (e : Step World Action) : Option Time :=
  match e.label with
  | .exec thread _ _ =>
    match e.pre.threads thread with
    | .fire sched :: _ => if fires env k sched.nextRunAt e then some sched.nextRunAt else none
    | _ => none
  | _ => none

/-- Such a step fires that activation. -/
theorem fires_of_firedActivation {k : UUID} {v : Time} {e : Step World Action}
    (fired : firedActivation env k e = some v) : fires env k v e = true := by
  unfold firedActivation at fired
  split at fired
  · split at fired
    · split at fired
      · cases fired
        assumption
      · cases fired
    · cases fired
  · cases fired

/-- In an orderly run the activations of a schedule fire in their order, each of them once. -/
theorem fired_in_order {start : Time} {past : List (Step World Action)} {w : World}
    (run : Run (Next env) (World.init start) past w) (orderly : ∀ e ∈ past, Orderly env e)
    (k : UUID) : (past.filterMap (firedActivation env k)).Pairwise (· < ·) := by
  revert orderly
  refine run.history (fun past _ => (∀ e ∈ past, Orderly env e) →
    (past.filterMap (firedActivation env k)).Pairwise (· < ·)) (fun _ => .nil) ?_
  intro past w a w' before ih step orderly
  have earlier : ∀ e ∈ past, Orderly env e := fun e listed =>
    orderly e (List.mem_append_left _ listed)
  rw [filterMap_snoc]
  cases fired : firedActivation env k ⟨w, a, w'⟩ with
  | none =>
    rw [Option.toList_none, List.append_nil]
    exact ih earlier
  | some v =>
    refine List.pairwise_append.mpr ⟨ih earlier, List.pairwise_singleton _ _, ?_⟩
    intro u old v' new
    rw [Option.toList_some, List.mem_singleton] at new
    subst new
    -- What is in hand lies above everything that has fired.
    obtain ⟨e, listed, again⟩ := List.mem_filterMap.mp old
    obtain ⟨nextRunAt, firing⟩ := fires_inv (fires_of_firedActivation fired)
    cases firing with
    | @stored thread _ _ sched _ _ head named activation =>
      have inHand : Task.fire sched ∈ w.threads thread := head ▸ List.mem_cons_self
      have below := (paced_of_run before earlier).2.2.tasks thread _ inHand k v'
        (by rw [← named, ← activation]; rfl)
      exact below e listed u (fires_of_firedActivation again)

variable {service : Service} {past : List (Step (Cluster service) ClusterAction)}
  {s : Cluster service} {start : Time}

/-- The election goes its own way. -/
theorem Cluster.election_run (run : Run (Cluster.Next env) (Cluster.init service start) past s) :
    Elections (Cluster.electionSteps past) s.election := by
  refine run.project Cluster.election _ ?_
  rintro past s a s' - ⟨⟨-, enabled⟩, rfl⟩
  cases a with
  | election b =>
    obtain ⟨t, made⟩ := Option.isSome_iff_exists.mp enabled
    exact .inl ⟨b, rfl, by simp [Cluster.step, made]⟩
  | system b => exact .inr ⟨rfl, rfl⟩

/-- So does the system. -/
theorem Cluster.system_run (run : Run (Cluster.Next env) (Cluster.init service start) past s) :
    Run (Sluice.Next env) (World.init start) (Cluster.systemSteps past) s.world := by
  refine run.project Cluster.world _ ?_
  rintro past s a s' - ⟨⟨-, enabled⟩, rfl⟩
  cases a with
  | election b => exact .inr ⟨rfl, rfl⟩
  | system b => exact .inl ⟨b, rfl, enabled, rfl⟩

/-- Schedules are only in the hands of leaders' loops. -/
def Cluster.InHand (s : Cluster service) : Prop :=
  ∀ thread k, k ∈ s.world.held thread →
    ∃ i, thread = loopThread i .cronExpander ∧ s.election.runs i .cronExpander = true

/-- A loop goes on until it returns. -/
theorem Election.runs_step {s s' : Election service} {a : ElectionAction}
    (step : s.step? a = some s') {i : Nat} {loop : Loop} (runs : s.runs i loop = true) :
    s'.runs i loop = true ∨ a = .scheduler i (.loopReturns loop) := by
  rcases Election.step_inv step with
    ⟨-, -, -, -, -, same⟩ | ⟨j, b, scheduler, event, rfl, -, turn, same⟩
  · exact .inl (by rwa [Election.runs, same])
  · by_cases own : i = j
    · subst own
      unfold Election.runs at runs ⊢
      simp only [same, Function.update_self]
      split at runs
      · rename_i session running phase
        rw [phase] at turn
        generalize scheduler.phase = after at turn ⊢
        cases turn with
        | signal | sessionDone => exact .inl runs
        | @loopReturns _ _ other =>
          by_cases same : loop = other
          · exact .inr (by rw [same])
          · rw [List.contains_iff_mem] at runs ⊢
            exact .inl ((List.mem_erase_of_ne same).mpr runs)
        | wait => cases runs
      · cases runs
    · simp only [Election.runs, same, Function.update_of_ne own]
      exact .inl runs

/-- Every step leaves the schedules in the hands of leaders' loops. -/
theorem Cluster.InHand.step {a : ClusterAction} (inHand : s.InHand) (enabled : a.Enabled s) :
    (s.step env a).InHand := by
  intro thread k held
  cases a with
  | election b =>
    obtain ⟨t, made⟩ := Option.isSome_iff_exists.mp enabled.2
    obtain ⟨i, rfl, runs⟩ := inHand thread k held
    refine ⟨i, rfl, ?_⟩
    simp only [Cluster.step, made, Option.getD_some]
    rcases Election.runs_step made runs with still | rfl
    · exact still
    · -- A loop that returns has nothing in hand.
      have idle : s.world.threads (loopThread i .cronExpander) = [] := enabled.1
      simp [Cluster.step, World.held, idle] at held
  | system b =>
    rcases World.held_step env s.world b thread with fewer | ⟨batch, rfl, -⟩
    · exact inHand thread k (fewer.subset held)
    · exact enabled.1

/-- It holds throughout every run. -/
theorem Cluster.inHand_of_run (run : Run (Cluster.Next env) (Cluster.init service start) past s) :
    s.InHand := by
  refine run.invariant Cluster.InHand ?_ ?_
  · intro thread k held
    cases held
  · rintro s a s' inHand ⟨enabled, rfl⟩
    exact inHand.step enabled

/-- Whoever runs a loop has won. -/
theorem Election.won_of_runs {s : Election service} {i : Nat} {loop : Loop}
    (runs : s.runs i loop = true) : ∃ session, (s.schedulers i).phase.won = some session := by
  unfold Election.runs at runs
  split at runs
  · rename_i session running phase
    exact ⟨session, by rw [phase]; rfl⟩
  · cases runs

/-- Without an expired session two schedulers do not run loops at the same time. -/
theorem Elections.runs_unique {past : List (Step (Election service) ElectionAction)}
    {s : Election service} (exclusive : service.Exclusive) (run : Elections past s)
    (unexpired : ∀ session, ¬ Expired past session) {i j : Nat} {loop loop' : Loop}
    (runs : s.runs i loop = true) (runs' : s.runs j loop' = true) : i = j := by
  obtain ⟨session, won⟩ := Election.won_of_runs runs
  obtain ⟨session', won'⟩ := Election.won_of_runs runs'
  by_contra distinct
  exact (run.expired_of_won exclusive distinct won won').elim (unexpired _) (unexpired _)

/--
What a leader's pass over the schedules needs besides the election.

No update is lost once its job is stored. A schedule fires when the clock has reached its next run
time, and its expression has an activation after the clock reading.
-/
def Settles (env : Nat → Env) (e : Step World Action) : Prop :=
  match e.label with
  | .drop thread =>
    ∀ k lastRunAt nextRunAt rest,
      e.pre.threads thread ≠ .updateSchedule k lastRunAt nextRunAt :: rest
  | .crash thread =>
    ∀ k lastRunAt nextRunAt, .updateSchedule k lastRunAt nextRunAt ∉ e.pre.threads thread
  | .exec thread _ clock =>
    ∀ sched rest next, e.pre.threads thread = .fire sched :: rest →
      (env thread).parse sched.cron = some next →
        sched.nextRunAt ≤ clock ∧ clock < next (env thread).localZone clock
  | _ => True

/-- A pass begins when nobody has a schedule in hand. -/
theorem Cluster.unheld_of_expandCron (exclusive : service.Exclusive)
    (run : Run (Cluster.Next env) (Cluster.init service start) past s)
    (unexpired : ∀ session, ¬ Expired (Cluster.electionSteps past) session) {thread : Nat}
    {batch : List Schedule} (enabled : (ClusterAction.system (.expandCron thread batch)).Enabled s)
    (other : Nat) (k : UUID) : k ∉ s.world.held other := by
  intro held
  -- Whoever has one in hand leads, and so does the scheduler that begins the pass.
  obtain ⟨i, rfl, runs⟩ := Cluster.inHand_of_run run other k held
  obtain ⟨j, named, runs'⟩ := enabled.1
  obtain rfl := (Cluster.election_run run).runs_unique exclusive unexpired runs runs'
  -- Its loop is between two passes.
  have idle : s.world.threads (loopThread i .cronExpander) = [] := named ▸ enabled.2.1
  rw [World.held, idle] at held
  cases held

/-- A step that settles what it begins is orderly, unless it is a pass over schedules in hand. -/
theorem Settles.orderly {e : Step World Action} (settled : Settles env e)
    (free : ∀ thread batch, e.label = .expandCron thread batch →
      ∀ other k, k ∉ e.pre.held other) : Orderly env e := by
  obtain ⟨w, a, w'⟩ := e
  cases a with
  | expandCron thread batch => exact fun sched _ other => free thread batch rfl other sched.id
  | _ => exact settled

/-- All steps of the system are orderly if no session expires. -/
theorem Cluster.orderly_of_run (exclusive : service.Exclusive)
    (run : Run (Cluster.Next env) (Cluster.init service start) past s)
    (unexpired : ∀ session, ¬ Expired (Cluster.electionSteps past) session)
    (settled : ∀ e ∈ Cluster.systemSteps past, Settles env e) :
    ∀ e ∈ Cluster.systemSteps past, Orderly env e := by
  intro e listed
  refine (settled e listed).orderly ?_
  intro thread batch labelled other k
  -- The pass was begun at some point of the run, up to which no session has expired either.
  obtain ⟨x, member, seen, before, -⟩ := Step.mem_project listed
  obtain ⟨earlier, later, rfl⟩ := List.append_of_mem member
  obtain ⟨front, ⟨enabled, -⟩, -⟩ := run.at_step
  have quiet : ∀ session, ¬ Expired (Cluster.electionSteps earlier) session := by
    rintro session ⟨y, old, expires⟩
    refine unexpired session ⟨y, ?_, expires⟩
    rw [Cluster.electionSteps, List.filterMap_append]
    exact List.mem_append_left _ old
  obtain ⟨pre, a, post⟩ := x
  cases a with
  | election b => cases seen
  | system b =>
    cases seen
    rw [labelled] at enabled
    rw [before]
    exact Cluster.unheld_of_expandCron exclusive front quiet enabled other k

/--
As long as no session of a scheduler expires, no update is lost and no leader fires ahead of its
clock, each schedule fires its activations in their order, none of them twice, whichever schedulers
lead one after the other.
-/
theorem cron_in_order_under_leases (exclusive : service.Exclusive)
    (run : Cluster.Reaches env past s)
    (unexpired : ∀ session, ¬ Expired (Cluster.electionSteps past) session)
    (settled : ∀ e ∈ Cluster.systemSteps past, Settles env e) (k : UUID) :
    ((Cluster.systemSteps past).filterMap (firedActivation env k)).Pairwise (· < ·) := by
  obtain ⟨start, run⟩ := run
  exact fired_in_order (Cluster.system_run run)
    (Cluster.orderly_of_run exclusive run unexpired settled) k

/-- Whether a step loses no task, and fires no schedule ahead of its clock. -/
def keepsUp (e : Step World Action) : Bool :=
  match e.label with
  | .drop _ | .crash _ => false
  | .exec thread _ clock =>
    match e.pre.threads thread with
    | .fire sched :: _ => decide (sched.nextRunAt ≤ clock)
    | _ => true
  | _ => true

/-- The expression for every minute moves on, so a run of it only has to keep up. -/
theorem settles_everyMinute {e : Step World Action} (kept : keepsUp e = true) :
    Settles (fun _ => .everyMinute) e := by
  obtain ⟨w, a, w'⟩ := e
  cases a with
  | drop | crash => cases kept
  | exec thread id clock =>
    intro sched rest next head parsed
    replace head : w.threads thread = .fire sched :: rest := head
    have reached : sched.nextRunAt ≤ clock := by simpa [keepsUp, head] using kept
    refine ⟨reached, ?_⟩
    simp only [Env.everyMinute] at parsed ⊢
    split at parsed
    · cases parsed
      show clock < (clock / 60000000 + 1) * 60000000
      lia
    · cases parsed
  | _ => trivial

/-- A scheduler campaigns in a session and wins. -/
def campaigns (i session : Nat) : List ClusterAction :=
  [.election (.scheduler i .enter), .election (.scheduler i (.newSession (some session))),
    .election (.scheduler i (.campaign true))]

/-- A leader is told to stop, and hands over once its loops have returned. -/
def handsOver (i : Nat) : List ClusterAction :=
  [.election (.scheduler i .signal)] ++
    Loop.all.map (fun loop => .election (.scheduler i (.loopReturns loop))) ++
    [.election (.scheduler i .wait), .election (.scheduler i .resign),
      .election (.scheduler i .close), .election (.scheduler i .leave)]

/-- A leader fires a schedule, with the identifiers that it draws on the way. -/
def firesCron (i : Nat) (sched : Schedule) (now : Time) (ids : List UUID) : List ClusterAction :=
  .system (.tick now) :: .system (.expandCron (loopThread i .cronExpander) [sched]) ::
    ids.map fun id => .system (.exec (loopThread i .cronExpander) id now)

/-- Two schedulers lead one after the other, and each fires the schedule once. -/
def handedOver : List ClusterAction :=
  [.system (.createSchedule minutely)] ++ campaigns 0 0 ++
    firesCron 0 minutely minute [11, 12, 13] ++ handsOver 0 ++ campaigns 1 1 ++
    firesCron 1 { minutely with lastRunAt := some minute, nextRunAt := 2 * minute } (2 * minute)
      [14, 15, 16]

theorem cron_in_order_handed_over :
    (Cluster.systemSteps (clusterTrace lock (fun _ => .everyMinute) 0 handedOver)).filterMap
        (firedActivation (fun _ => .everyMinute) 5) = [minute, 2 * minute] ∧
      ((Cluster.systemSteps (clusterTrace lock (fun _ => .everyMinute) 0 handedOver)).filterMap
        (firedActivation (fun _ => .everyMinute) 5)).Pairwise (· < ·) := by
  have run := reaches_clusterTrace lock (fun _ => .everyMinute) 0 handedOver (by decide +kernel)
  refine ⟨by decide +kernel, cron_in_order_under_leases lock_exclusive run ?_ ?_ 5⟩
  · rintro session ⟨e, listed, i, expired, -⟩
    have none : (Cluster.electionSteps
        (clusterTrace lock (fun _ => .everyMinute) 0 handedOver)).all
        (fun e => match e.label with | .expire _ => false | _ => true) = true := by decide +kernel
    have calm := List.all_eq_true.mp none e listed
    rw [expired] at calm
    cases calm
  · intro e listed
    have kept : (Cluster.systemSteps (clusterTrace lock (fun _ => .everyMinute) 0 handedOver)).all
        keepsUp = true := by decide +kernel
    exact settles_everyMinute (List.all_eq_true.mp kept e listed)

end Sluice
