import Sluice.Proofs.System.Heartbeats

/-! Heartbeats move the deadline of a claim back if they come too early. -/

namespace Sluice

open Relational Transition

variable {env : Nat → Env} {s : Crew} {a : CrewAction} {c : Claim} {began : Time}
  {earlier later : List (Step Crew CrewAction)} {e : Step Crew CrewAction}

/-- The row of the job carries the token of the claim. -/
def Claim.InForce (c : Claim) (s : Crew) : Prop :=
  ∃ row, s.world.db.jobs.find? c.jobID = some row ∧ row.claimToken = some c.token

/-- A step that leaves a claim in force leaves its deadline where it is or moves it on. -/
def MovesOn (c : Claim) (x : Step Crew CrewAction) : Prop :=
  ∀ old row, x.pre.world.db.jobs.find? c.jobID = some old → old.claimToken = some c.token →
    x.post.world.db.jobs.find? c.jobID = some row → row.claimToken = some c.token →
    ∀ deadline, old.deadline = some deadline →
      ∃ deadline', row.deadline = some deadline' ∧ deadline ≤ deadline'

/-- A heartbeat that finds its claim in force comes no sooner than three quarters of a minute. -/
def BeatsLate (c : Claim) (began : Time) (x : Step Crew CrewAction) : Prop :=
  ∀ clock, beatOf c x = some clock → c.InForce x.pre → began + 45 * second ≤ clock

/-- A heartbeat leaves its claim in force. -/
theorem Claim.InForce.beat (held : c.InForce s) {clock : Time}
    (beat : beatOf c ⟨s, a, s.step env a⟩ = some clock) : c.InForce (s.step env a) := by
  obtain ⟨old, found, token⟩ := held
  cases a with
  | heartbeat other time =>
    -- The statement writes the deadline of a row, if anything.
    simp only [Claim.InForce, Crew.step, CrewAction.action, Option.elim_some]
    rw [World.step_db_some (rfl : Action.op env s.world (.extendDeadline other _) = _), Op.apply,
      extendDeadline, Table.find?_update, found]
    refine ⟨_, rfl, ?_⟩
    dsimp only
    split <;> exact token
  | _ => cases beat

/-- A claim that is in force has been so ever since it was made. -/
theorem Claim.InForce.since (run : Crew.Reaches env (earlier ++ e :: later) s)
    (claimed : claimsFrom c began e) (held : c.InForce s) : ∀ x ∈ later, c.InForce x.pre := by
  obtain ⟨start, run⟩ := run
  refine run.period (fun later s => c.InForce s → ∀ x ∈ later, c.InForce x.pre) (by simp) ?_ held
  rintro later s a s' run since ⟨enabled, rfl⟩ ⟨row, stored, token⟩
  -- The last step cannot have brought the token back.
  have drawn := claimsFrom.drawn ⟨start, run⟩ claimed
  obtain ⟨old, found, carried, -⟩ := Crew.held_row enabled drawn stored token
  have held : c.InForce s := ⟨old, found, carried⟩
  simp only [List.forall_mem_append, List.forall_mem_singleton]
  exact ⟨since held, held⟩

/-- A step moves a deadline on unless it is a heartbeat that sets an earlier one. -/
theorem movesOn_iff (run : Crew.Reaches env (earlier ++ e :: later) s)
    (claimed : claimsFrom c began e) (enabled : a.Enabled s) :
    MovesOn c ⟨s, a, s.step env a⟩ ↔
      ∀ clock, beatOf c ⟨s, a, s.step env a⟩ = some clock → c.InForce s →
        lastsUntil began (later.filterMap (beatOf c)) ≤ clock + heartbeatTTL := by
  have drawn := claimsFrom.drawn run claimed
  have consistent := run.consistent c.jobID
  -- The deadline before the step is that of the last heartbeat.
  have lasting : ∀ old, s.world.db.jobs.find? c.jobID = some old → old.claimToken = some c.token →
      old.deadline = some (lastsUntil began (later.filterMap (beatOf c))) :=
    fun old found token => deadline_of_beats run claimed found token
  constructor
  · intro moves clock beat held
    obtain ⟨row, stored, token⟩ := held.beat beat
    obtain ⟨old, found, carried, set⟩ := Crew.deadline_step enabled drawn consistent stored token
    obtain ⟨deadline, new, forward⟩ :=
      moves old row found carried stored token _ (lasting old found carried)
    rw [set, beat, Option.elim_some, Option.some.injEq] at new
    rwa [← new] at forward
  · intro late old row found carried stored token deadline was
    obtain ⟨other, located, -, set⟩ := Crew.deadline_step enabled drawn consistent stored token
    change s.world.db.jobs.find? c.jobID = some old at found
    rw [found, Option.some.injEq] at located
    rw [← located, was] at set
    rw [lasting old found carried, Option.some.injEq] at was
    cases beat : beatOf c ⟨s, a, s.step env a⟩ with
    | none =>
      rw [beat, Option.elim_none] at set
      exact ⟨deadline, set, Int.le_refl deadline⟩
    | some clock =>
      rw [beat, Option.elim_some] at set
      exact ⟨_, set, was ▸ late clock beat ⟨old, found, carried⟩⟩

/-- One heartbeat more is late enough exactly if it does not set an earlier deadline. -/
theorem beatsLate_iff (run : Crew.Reaches env (earlier ++ e :: later) s)
    (claimed : claimsFrom c began e) (late : ∀ x ∈ later, BeatsLate c began x)
    (increasing : (List.filterMap (beatOf c) (later ++ [⟨s, a, s.step env a⟩])).Pairwise (· ≤ ·)) :
    BeatsLate c began ⟨s, a, s.step env a⟩ ↔
      ∀ clock, beatOf c ⟨s, a, s.step env a⟩ = some clock → c.InForce s →
        lastsUntil began (later.filterMap (beatOf c)) ≤ clock + heartbeatTTL := by
  refine forall_congr' fun clock => forall_congr' fun beat => forall_congr' fun held => ?_
  rw [filterMap_snoc, beat, Option.toList_some, List.pairwise_append] at increasing
  rcases List.eq_nil_or_concat (later.filterMap (beatOf c)) with first | ⟨beats, last, more⟩
  · -- The deadline of the claim itself is a minute away.
    rw [first]
    simp only [lastsUntil, List.getLast?_nil, Option.elim_none, visibilityTimeout, heartbeatTTL,
      second]
    lia
  · -- The heartbeat before this one was late enough, and this one came after it.
    rw [List.concat_eq_append] at more
    have member : last ∈ later.filterMap (beatOf c) := by simp [more]
    have after : last ≤ clock := increasing.2.2 last member clock (by simp)
    obtain ⟨x, listed, sent⟩ := List.mem_filterMap.mp member
    have before := late x listed last sent (held.since run claimed x listed)
    simp only [more, lastsUntil, List.getLast?_append, List.getLast?_singleton, Option.some_or,
      Option.elim_some, heartbeatTTL, second] at before ⊢
    lia

/--
Heartbeats only move the deadline on exactly if none of them reaches its claim before three quarters
of a minute have passed.

A claim lasts for a minute and a heartbeat for a quarter of one, counted from its own time.
-/
theorem heartbeats_move_on_iff {past : List (Step Crew CrewAction)}
    (run : Crew.Reaches env past s) (taken : past = earlier ++ e :: later)
    (claimed : claimsFrom c began e)
    (increasing : (later.filterMap (beatOf c)).Pairwise (· ≤ ·)) :
    (∀ x ∈ later, MovesOn c x) ↔ ∀ x ∈ later, BeatsLate c began x := by
  subst taken
  obtain ⟨start, run⟩ := run
  refine run.period (fun later _ => (later.filterMap (beatOf c)).Pairwise (· ≤ ·) →
    ((∀ x ∈ later, MovesOn c x) ↔ ∀ x ∈ later, BeatsLate c began x)) (by simp) ?_ increasing
  rintro later s a s' run ih ⟨enabled, rfl⟩ increasing
  -- The steps before the last one are settled, and they decide about the last one.
  have shorter : (later.filterMap (beatOf c)).Pairwise (· ≤ ·) := by
    rw [filterMap_snoc, List.pairwise_append] at increasing
    exact increasing.1
  simp only [List.forall_mem_append, List.forall_mem_singleton]
  rw [ih shorter, movesOn_iff ⟨start, run⟩ claimed enabled]
  refine and_congr_right fun late => ?_
  rw [beatsLate_iff ⟨start, run⟩ claimed late increasing]

/-- A worker claims the job at zero, starts it, and sends its first heartbeat at a given time. -/
def firstBeat (clock : Time) : List CrewAction :=
  [.system (.submit 0 7 .hook 1 0), .claim 0 1 "w" 21 11 0 0, .getJob 0,
    .markRunning 0 true, .system (.tick clock), .heartbeat ⟨1, 21, 11⟩ clock]

/-- The steps after the claim. -/
def sinceClaim (clock : Time) : List (Step Crew CrewAction) :=
  (crewTrace (fun _ => .everyMinute) 0 (firstBeat clock)).drop 2

/-- The claim is the second step of the run. -/
theorem firstBeat_claims (clock : Time) :
    ∃ e, crewTrace (fun _ => .everyMinute) 0 (firstBeat clock) =
        (crewTrace (fun _ => .everyMinute) 0 (firstBeat clock)).take 1 ++ e :: sinceClaim clock ∧
      claimsFrom ⟨1, 21, 11⟩ 0 e :=
  ⟨_, rfl, 0, "w", 0, rfl, rfl⟩

theorem heartbeats_move_on_late :
    (sinceClaim (45 * second)).filterMap (beatOf ⟨1, 21, 11⟩) = [45 * second] ∧
      ∀ x ∈ sinceClaim (45 * second), MovesOn ⟨1, 21, 11⟩ x := by
  have run := reaches_crewTrace (fun _ => .everyMinute) 0 (firstBeat (45 * second))
    (by decide +kernel)
  obtain ⟨e, taken, claimed⟩ := firstBeat_claims (45 * second)
  have beats : (sinceClaim (45 * second)).filterMap (beatOf ⟨1, 21, 11⟩) = [45 * second] := by
    decide +kernel
  refine ⟨beats, (heartbeats_move_on_iff run taken claimed (by rw [beats]; simp)).mpr ?_⟩
  -- The one heartbeat comes when a minute has a quarter left.
  intro x listed clock beat _
  have sent : clock ∈ (sinceClaim (45 * second)).filterMap (beatOf ⟨1, 21, 11⟩) :=
    List.mem_filterMap.mpr ⟨x, listed, beat⟩
  rw [beats, List.mem_singleton] at sent
  rw [sent]
  decide

theorem heartbeat_moves_deadline_back :
    ¬ ∀ (env : Nat → Env) (past : List (Step Crew CrewAction)) (s : Crew),
      Crew.Reaches env past s → ∀ earlier e later, past = earlier ++ e :: later →
      ∀ c began, claimsFrom c began e →
        (∀ clock ∈ later.filterMap (beatOf c), began < clock) →
        (later.filterMap (beatOf c)).Pairwise (· < ·) → ∀ x ∈ later, MovesOn c x := by
  intro moves
  have run := reaches_crewTrace (fun _ => .everyMinute) 0 (firstBeat (5 * second))
    (by decide +kernel)
  obtain ⟨e, taken, claimed⟩ := firstBeat_claims (5 * second)
  have beats : (sinceClaim (5 * second)).filterMap (beatOf ⟨1, 21, 11⟩) = [5 * second] := by
    decide +kernel
  have onward := moves _ _ _ run _ _ _ taken _ _ claimed (by rw [beats]; decide)
    (by rw [beats]; simp) ((sinceClaim (5 * second)).get ⟨3, by decide +kernel⟩)
    (List.get_mem _ _)
  -- The deadline of the claim is at second sixty, and the heartbeat sets it to second twenty.
  obtain ⟨deadline, set, later⟩ := onward
    { claimRow "w" 21 (60 * second) 0
        (submittedJob 7 .hook 1 0).inserted with state := .running }
    { claimRow "w" 21 (20 * second) 0
        (submittedJob 7 .hook 1 0).inserted with state := .running }
    (by decide +kernel) (by decide +kernel) (by decide +kernel) (by decide +kernel) (60 * second)
    (by decide +kernel)
  cases set
  exact absurd later (by decide)

end Sluice
