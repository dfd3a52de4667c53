import Sluice.Proofs.Consistency
import Sluice.Proofs.System.Crew

/-! A claim lasts as long as its heartbeats say, however the leaders pause in between. -/

namespace Sluice

open Relational Transition

variable {env : Nat → Env} {s : Crew} {a : CrewAction}

/-- A step in which a worker claims a job, with the time from which its deadline is counted. -/
def claimsFrom (c : Claim) (began : Time) (e : Step Crew CrewAction) : Prop :=
  ∃ worker workerID clock, e.label = .claim worker c.jobID workerID c.token c.runID began clock ∧
    e.label.stage e.pre = some (worker, .claimed c)

/-- The time of a heartbeat for a claim. -/
def beatOf (c : Claim) (e : Step Crew CrewAction) : Option Time :=
  match e.label with
  | .heartbeat other clock =>
    if other.jobID = c.jobID ∧ other.token = c.token then some clock else none
  | _ => none

/-- Until when a claim lasts after some heartbeats. -/
def lastsUntil (began : Time) (beats : List Time) : Time :=
  beats.getLast?.elim (began + (visibilityTimeout + 30 * second)) (· + heartbeatTTL)

/-- A row with a token keeps its deadline, unless the call extends it or claims the job. -/
theorem RowStep.deadline_inv {k : UUID} {op : Op} {old row : Job}
    (step : RowStep k op (some old) (some row)) {token : UUID}
    (held : row.claimToken = some token) :
    row.deadline = old.deadline ∨ (∃ deadline, op = .extendDeadline k token deadline) ∨
      ∃ workerID deadline runID now, op = .tryClaim k workerID token deadline runID now := by
  cases step with
  | keep | start | promoteScheduled | promoteFailed => exact .inl rfl
  | claim =>
    -- The row carries the token that the call has brought.
    simp only [claimRow, Option.some.injEq] at held
    rw [held]
    exact .inr (.inr ⟨_, _, _, _, rfl⟩)
  | extend own =>
    rw [own, Option.some.injEq] at held
    rw [held]
    exact .inr (.inl ⟨_, rfl⟩)
  -- The other calls clear the token together with the deadline.
  | _ => cases held

/-- Deadlines are extended by one kind of action only. -/
theorem Action.extendDeadline_of_op {w : World} {b : Action} {jobID token : UUID} {deadline : Time}
    (called : b.op env w = some (.extendDeadline jobID token deadline)) :
    ∃ c, b = .extendDeadline c deadline := by
  cases Action.makes called with
  | extendDeadline => exact ⟨_, rfl⟩

/-- Workers extend deadlines by heartbeats only. -/
theorem CrewAction.heartbeat_of_extend (enabled : a.Enabled s) {c : Claim} {deadline : Time}
    (called : a.action s = some (.extendDeadline c deadline)) :
    ∃ clock, a = .heartbeat c clock ∧ deadline = clock + heartbeatTTL := by
  cases a with
  | heartbeat other clock =>
    cases called
    exact ⟨clock, rfl, rfl⟩
  | system b =>
    -- The rest of the system does not act for workers.
    cases called
    cases enabled.1
  | record worker d succeeds =>
    -- A recording completes or fails the job.
    simp only [CrewAction.action] at called
    split at called
    · rename_i outcome _ _
      split at called
      · cases outcome <;> cases called
      · cases called
    · cases called
  | markRunning =>
    simp only [CrewAction.action] at called
    split at called
    · split at called <;> cases called
    · cases called
  | completeRun =>
    simp only [CrewAction.action] at called
    split at called <;> cases called
  | _ => cases called

/-- A heartbeat sets the deadline of its own claim and leaves the others alone. -/
theorem heartbeat_deadline {w : World} {c other : Claim} {clock : Time} {row : Job}
    (consistent : ∀ old, w.db.jobs.find? c.jobID = some old → old.Consistent)
    (stored : (w.step env (.extendDeadline other (clock + heartbeatTTL))).db.jobs.find? c.jobID =
      some row) (held : row.claimToken = some c.token) :
    ∃ old, w.db.jobs.find? c.jobID = some old ∧ old.claimToken = some c.token ∧
      row.deadline = if other.jobID = c.jobID ∧ other.token = c.token then
        some (clock + heartbeatTTL) else old.deadline := by
  rw [World.step_db_some (rfl : Action.op env w (.extendDeadline other (clock + heartbeatTTL)) = _),
    Op.apply, extendDeadline, Table.find?_update] at stored
  obtain ⟨old, found, rfl⟩ := Option.map_eq_some_iff.mp stored
  have named := Table.key_of_find? found
  have carried : old.claimToken = some c.token := by
    split at held <;> exact held
  -- A row with a token is in flight, so its owner's statement finds it.
  have live : old.state.inFlight = true := by
    have fits := consistent old found
    exact (State.inFlight_iff _).mpr (fits.deadline.mp (fits.token.mp (by rw [carried]; rfl)))
  -- What is left of the statement's condition is that the claims are the same.
  have hit : owned other.jobID other.token old = true ↔
      other.jobID = c.jobID ∧ other.token = c.token := by
    simp only [owned, named, carried, live, Bool.and_true, Bool.and_eq_true, beq_iff_eq,
      Option.some.injEq]
    exact ⟨fun same => ⟨same.1.symm, same.2.symm⟩, fun same => ⟨same.1.symm, same.2.symm⟩⟩
  refine ⟨old, found, carried, ?_⟩
  by_cases own : other.jobID = c.jobID ∧ other.token = c.token
  · rw [if_pos own, if_pos (hit.mpr own)]
  · rw [if_neg own, if_neg (mt hit.mp own)]

/-- A step that leaves a claim in force also leaves its deadline, unless it is a heartbeat. -/
theorem Crew.deadline_step (enabled : a.Enabled s) {c : Claim} (drawn : c.token ∈ s.world.drawn)
    (consistent : ∀ old, s.world.db.jobs.find? c.jobID = some old → old.Consistent) {row : Job}
    (stored : (s.step env a).world.db.jobs.find? c.jobID = some row)
    (held : row.claimToken = some c.token) :
    ∃ old, s.world.db.jobs.find? c.jobID = some old ∧ old.claimToken = some c.token ∧
      row.deadline = (beatOf c ⟨s, a, s.step env a⟩).elim old.deadline
        (fun clock => some (clock + heartbeatTTL)) := by
  by_cases beats : ∃ other clock, a = .heartbeat other clock
  · obtain ⟨other, clock, rfl⟩ := beats
    simp only [Crew.step, CrewAction.action, Option.elim_some] at stored
    obtain ⟨old, found, carried, set⟩ := heartbeat_deadline consistent stored held
    refine ⟨old, found, carried, ?_⟩
    rw [set]
    simp only [beatOf]
    split <;> rfl
  · -- Without a heartbeat the row keeps the deadline it had.
    have silent : beatOf c ⟨s, a, s.step env a⟩ = none := by
      cases a with
      | heartbeat other clock => exact absurd ⟨other, clock, rfl⟩ beats
      | _ => rfl
    obtain ⟨old, found, carried, -⟩ := Crew.held_row enabled drawn stored held
    refine ⟨old, found, carried, ?_⟩
    rw [silent, Option.elim_none]
    cases called : a.action s with
    | none =>
      simp only [Crew.step, called, Option.elim_none, found, Option.some.injEq] at stored
      rw [stored]
    | some b =>
      simp only [Crew.step, called, Option.elim_some] at stored
      rcases World.step_row env s.world b c.jobID with same | ⟨op, made, step⟩
      · rw [same, found, Option.some.injEq] at stored
        rw [stored]
      · rw [found, stored] at step
        rcases step.deadline_inv held with kept | ⟨deadline, rfl⟩ | ⟨_, _, _, _, rfl⟩
        · exact kept
        · -- Only a heartbeat extends a deadline.
          obtain ⟨other, rfl⟩ := Action.extendDeadline_of_op made
          obtain ⟨clock, rfl, -⟩ := CrewAction.heartbeat_of_extend enabled called
          exact absurd ⟨other, clock, rfl⟩ beats
        · -- A claim draws a new token.
          cases Action.makes made with
          | tryClaim => exact absurd drawn (enabled.2 _ called).1

/-- The rows of the jobs are consistent in every run of the workers. -/
theorem Crew.Reaches.consistent {past : List (Step Crew CrewAction)}
    (run : Crew.Reaches env past s) (k : UUID) :
    ∀ row, s.world.db.jobs.find? k = some row → row.Consistent := by
  obtain ⟨calls, run⟩ := run.world.calls
  exact run.consistent k

/-- One more step, which may be a heartbeat. -/
theorem lastsUntil_append (began : Time) (beats : List Time) (beat : Option Time) :
    lastsUntil began (beats ++ beat.toList) =
      beat.elim (lastsUntil began beats) fun clock => clock + heartbeatTTL := by
  cases beat <;> simp [lastsUntil]

/-- A claim sets its deadline and draws its token. -/
theorem claimsFrom.row {e : Step Crew CrewAction} (step : Crew.Next env e.pre e.label e.post)
    {c : Claim} {began : Time} (claimed : claimsFrom c began e) :
    c.token ∈ e.post.world.drawn ∧
      ∃ row, e.post.world.db.jobs.find? c.jobID = some row ∧
        row.deadline = some (lastsUntil began []) := by
  obtain ⟨s, a, s'⟩ := e
  obtain ⟨-, made⟩ := step
  change s' = s.step env a at made
  subst made
  obtain ⟨worker, workerID, clock, rfl, moved⟩ := claimed
  -- The worker has only moved on because its call was granted the job.
  obtain ⟨id, success, -⟩ := Option.map_eq_some_iff.mp moved
  refine ⟨by simp [Crew.step, CrewAction.action, World.step, Action.draws], ?_⟩
  have claims : (Op.tryClaim c.jobID workerID c.token
      (began + (visibilityTimeout + 30 * second)) c.runID clock).claims c.jobID s.world.db =
        true := by
    simp [Op.claims, success]
  obtain ⟨_, _, _, _, _, row, same, -, -, stored, -⟩ := Op.claims_inv claims
  cases same
  exact ⟨_, stored, rfl⟩

section Claimed

variable {earlier later : List (Step Crew CrewAction)} {e : Step Crew CrewAction} {c : Claim}
  {began : Time}

/-- The token of a claim stays drawn from then on. -/
theorem claimsFrom.drawn (run : Crew.Reaches env (earlier ++ e :: later) s)
    (claimed : claimsFrom c began e) : c.token ∈ s.world.drawn := by
  obtain ⟨start, run⟩ := run
  refine run.period (fun _ s => c.token ∈ s.world.drawn) (fun step => (claimed.row step).1) ?_
  intro later s a s' _ drawn step
  rw [step.2]
  exact Crew.drawn_step drawn

/-- A claim that is in force lasts as long as its last heartbeat says. -/
theorem deadline_of_beats (run : Crew.Reaches env (earlier ++ e :: later) s)
    (claimed : claimsFrom c began e) {row : Job}
    (found : s.world.db.jobs.find? c.jobID = some row) (held : row.claimToken = some c.token) :
    row.deadline = some (lastsUntil began (later.filterMap (beatOf c))) := by
  obtain ⟨start, run⟩ := run
  suffices lasting : ∀ row, s.world.db.jobs.find? c.jobID = some row →
      row.claimToken = some c.token →
        row.deadline = some (lastsUntil began (later.filterMap (beatOf c))) from
    lasting row found held
  refine run.period (fun later s => ∀ row, s.world.db.jobs.find? c.jobID = some row →
    row.claimToken = some c.token →
      row.deadline = some (lastsUntil began (later.filterMap (beatOf c)))) ?_ ?_
  · -- The claim itself counts its deadline from the time it was begun.
    intro step row located _
    obtain ⟨-, new, stored, deadline⟩ := claimed.row step
    rw [stored, Option.some.injEq] at located
    rw [← located, deadline]
    rfl
  · rintro later s a s' run lasting ⟨enabled, rfl⟩ row stored carried
    have reached : Crew.Reaches env (earlier ++ e :: later) s := ⟨start, run⟩
    obtain ⟨old, located, had, set⟩ := Crew.deadline_step enabled (claimsFrom.drawn reached claimed)
      (reached.consistent c.jobID) stored carried
    -- The last heartbeat is that of this step or the one before.
    rw [set, lasting old located had, filterMap_snoc, lastsUntil_append]
    cases beatOf c ⟨s, a, s.step env a⟩ <;> rfl

end Claimed

/--
A worker that keeps up its heartbeats is not reaped.

Before the claim expires no call of `RequeueStaleJob` changes the row, whenever it was begun. A
heartbeat lasts for three intervals.
-/
theorem healthy_not_reaped {past : List (Step Crew CrewAction)} (run : Crew.Reaches env past s)
    (earlier : List (Step Crew CrewAction)) {e : Step Crew CrewAction}
    {later : List (Step Crew CrewAction)} (taken : past = earlier ++ e :: later) {c : Claim}
    {began : Time} (claimed : claimsFrom c began e) {row : Job}
    (found : s.world.db.jobs.find? c.jobID = some row) (held : row.claimToken = some c.token)
    (soon : s.world.now ≤ lastsUntil began (later.filterMap (beatOf c))) :
    (∀ clock dbNow, dbNow ≤ s.world.now →
      (requeueStaleJob c.jobID clock dbNow s.world.db).2.jobs.find? c.jobID = some row) ∧
      heartbeatTTL = 3 * heartbeatInterval := by
  subst taken
  refine ⟨?_, rfl⟩
  intro clock dbNow begun
  have deadline := deadline_of_beats run claimed found held
  -- The transaction was begun at the latest now, and the deadline is still to come.
  have alive : row.expired dbNow = false := by
    rw [Job.expired, deadline, Option.any_some, Bool.and_eq_false_iff, decide_eq_false_iff_not]
    right
    lia
  rcases requeueStaleJob_spec c.jobID clock dbNow s.world.db with
    ⟨-, done⟩ | ⟨jobRuns, -, ⟨old, located, late, -⟩ | ⟨-, done⟩⟩
  · rw [done, found]
  · -- The row would have to be past its deadline.
    rw [found, Option.some.injEq] at located
    rw [← located, alive] at late
    cases late
  · rw [done, found]

/-- A worker claims the job and lets a heartbeat follow after half a minute. -/
def healthyCrew : List CrewAction :=
  [.system (.submit 0 7 .hook 1 0), .claim 0 1 "w" 21 11 0 0, .getJob 0,
    .markRunning 0 true, .system (.tick (30 * second)), .heartbeat ⟨1, 21, 11⟩ (30 * second),
    .system (.tick (44 * second))]

theorem healthy_not_reaped_beating :
    (requeueStaleJob 1 (44 * second) (44 * second)
      (afterCrew (fun _ => .everyMinute) 0 healthyCrew).world.db).2.jobs.find? 1 =
        some { claimRow "w" 21 (45 * second) 0
            (submittedJob 7 .hook 1 0).inserted with
          state := .running } := by
  have run := reaches_crewTrace (fun _ => .everyMinute) 0 healthyCrew (by decide +kernel)
  have claimed : claimsFrom ⟨1, 21, 11⟩ 0
      ((crewTrace (fun _ => .everyMinute) 0 healthyCrew).get ⟨1, by decide +kernel⟩) :=
    ⟨0, "w", 0, rfl, by decide +kernel⟩
  exact (healthy_not_reaped run ((crewTrace (fun _ => .everyMinute) 0 healthyCrew).take 1) rfl
    claimed (by decide +kernel) rfl (by decide +kernel)).1 _ _ (by decide +kernel)

end Sluice
