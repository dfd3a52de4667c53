import Sluice.Scheduler.Election

/-! Two schedulers lead at the same time only if the session of one of them has expired. -/

namespace Sluice

open Coordination Transition

/-- The session that a scheduler has open and has not begun to give up. -/
def Phase.held : Phase → Option Nat
  | campaigning session | leading session _ | resigning session => some session
  | _ => none

/-- The session that a scheduler has won with. -/
def Phase.won : Phase → Option Nat
  | leading session _ | resigning session => some session
  | _ => none

/-- How a step of a scheduler can change its phase, and what it means for the session. -/
inductive Turns : Phase → SchedulerAction → Phase → Option Event → Prop where
  | signal {phase : Phase} : Turns phase .signal phase none
  | sessionDone {phase : Phase} : Turns phase .sessionDone phase none
  | leave : Turns .standby .leave .returned none
  | enter : Turns .standby .enter .entering none
  | sessionFails : Turns .entering (.newSession none) .returned none
  | newSession {session : Nat} : Turns .entering (.newSession (some session))
      (.campaigning session) (some (.opened session))
  | win {session : Nat} : Turns (.campaigning session) (.campaign true)
      (.leading session Loop.all) (some (.won session))
  | lose {session : Nat} :
      Turns (.campaigning session) (.campaign false) (.closing session true) none
  | loopReturns {session : Nat} {running : List Loop} {loop : Loop} :
      Turns (.leading session running) (.loopReturns loop)
        (.leading session (running.erase loop)) none
  | wait {session : Nat} : Turns (.leading session []) .wait (.resigning session) none
  | resign {session : Nat} : Turns (.resigning session) .resign (.closing session false)
      (some (.resigned session))
  | close {session : Nat} {failed : Bool} : Turns (.closing session failed) .close
      (if failed then .returned else .standby) (some (.closed session))

/-- Every move of a scheduler is one of those. -/
theorem Scheduler.turns_of_move {s : Scheduler} {a : SchedulerAction} {phase : Phase}
    {event : Option Event} (moved : s.move? a = some (phase, event)) :
    Turns s.phase a phase event := by
  obtain ⟨before, canceled, sessionDone, isLeader⟩ := s
  cases a with
  | signal =>
    cases moved
    exact .signal
  | newSession result =>
    simp only [Scheduler.move?] at moved
    split at moved
    · cases result <;> cases moved <;> constructor
    · cases moved
  | campaign ok =>
    simp only [Scheduler.move?] at moved
    split at moved
    · cases ok <;> cases moved <;> constructor
    · cases moved
  | leave | enter | loopReturns =>
    simp only [Scheduler.move?] at moved
    split at moved
    · split at moved
      all_goals cases moved
      all_goals constructor
    · cases moved
  | sessionDone | wait | resign | close =>
    simp only [Scheduler.move?] at moved
    split at moved
    · cases moved
      constructor
    · cases moved

/-- A step is a move. -/
theorem Scheduler.turns {s s' : Scheduler} {a : SchedulerAction} {event : Option Event}
    (step : s.step? a = some (s', event)) : Turns s.phase a s'.phase event := by
  obtain ⟨⟨phase, event'⟩, moved, same⟩ := Option.map_eq_some_iff.mp step
  cases same
  exact Scheduler.turns_of_move moved

section Turns

variable {before after : Phase} {a : SchedulerAction} {event : Option Event} {session : Nat}

/-- Whoever has won has not given up yet. -/
theorem Phase.held_of_won {phase : Phase} (won : phase.won = some session) :
    phase.held = some session := by
  cases phase <;> cases won <;> rfl

theorem Phase.session_of_held {phase : Phase} (held : phase.held = some session) :
    phase.session = some session := by
  cases phase <;> cases held <;> rfl

/-- A session is an old one, or it has just been opened. -/
theorem Turns.open_session (turn : Turns before a after event)
    (used : after.session = some session) :
    before.session = some session ∨ event = some (.opened session) := by
  cases turn with
  | newSession =>
    cases used
    exact .inr rfl
  | leave | enter | sessionFails => cases used
  | @close _ failed => cases failed <;> cases used
  | _ => exact .inl used

/-- What is held was held before, or has just been opened. -/
theorem Turns.held (turn : Turns before a after event) (held : after.held = some session) :
    before.held = some session ∨ event = some (.opened session) := by
  cases turn with
  | newSession =>
    cases held
    exact .inr rfl
  | @close _ failed => cases failed <;> cases held
  | signal | sessionDone | win | loopReturns | wait => exact .inl held
  | _ => cases held

/-- Whoever has won had done so before, or has just been told. -/
theorem Turns.won (turn : Turns before a after event) (won : after.won = some session) :
    before.won = some session ∨ event = some (.won session) := by
  cases turn with
  | win =>
    cases won
    exact .inr rfl
  | @close _ failed => cases failed <;> cases won
  | signal | sessionDone | loopReturns | wait => exact .inl won
  | _ => cases won

/-- A scheduler only gives up its own session, which it does not hold any more then. -/
theorem Turns.gives_up (turn : Turns before a after event)
    (gives : event = some (.resigned session) ∨ event = some (.closed session)) :
    before.session = some session ∧ after.held = none := by
  cases turn with
  | resign =>
    rcases gives with given | given <;> cases given
    exact ⟨rfl, rfl⟩
  | @close _ failed =>
    rcases gives with given | given <;> cases given
    exact ⟨rfl, by cases failed <;> rfl⟩
  | _ => rcases gives with given | given <;> cases given

/-- A session is given up in the history, or by this step, whose scheduler had it open. -/
theorem Turns.given_up (turn : Turns before a after event) {events : List Event}
    (gone : .resigned session ∈ events ++ event.toList ∨
      .closed session ∈ events ++ event.toList) :
    (.resigned session ∈ events ∨ .closed session ∈ events) ∨
      before.session = some session ∧ after.held = none := by
  simp only [List.mem_append, Option.mem_toList] at gone
  rcases gone with (old | new) | (old | new)
  · exact .inl (.inl old)
  · exact .inr (turn.gives_up (.inl new))
  · exact .inl (.inr old)
  · exact .inr (turn.gives_up (.inr new))

/-- Nobody but the service makes a session expire. -/
theorem Turns.not_expires (turn : Turns before a after event) :
    event ≠ some (.expired session) := by
  cases turn <;> exact nofun

end Turns

variable {service : Service} {past : List (Step (Election service) ElectionAction)}
  {s s' : Election service}

/-- A session has expired in a run, while a scheduler had it open. -/
def Expired (past : List (Step (Election service) ElectionAction)) (session : Nat) : Prop :=
  ∃ e ∈ past, ∃ i, e.label = .expire i ∧ (e.pre.schedulers i).phase.session = some session

/-- A step of some scheduler, or the end of a session. -/
theorem Election.step_inv {a : ElectionAction} (step : s.step? a = some s') :
    (∃ i session, a = .expire i ∧ (s.schedulers i).phase.session = some session ∧
      Election.event ⟨s, a, s'⟩ = some (.expired session) ∧ s'.schedulers = s.schedulers) ∨
      ∃ i b scheduler event, a = .scheduler i b ∧ Election.event ⟨s, a, s'⟩ = event ∧
        Turns (s.schedulers i).phase b scheduler.phase event ∧
        s'.schedulers = Function.update s.schedulers i scheduler := by
  obtain ⟨⟨schedulers, event⟩, turn, made⟩ := Option.bind_eq_some_iff.mp step
  obtain ⟨state, -, rfl⟩ := Option.map_eq_some_iff.mp made
  have shown : Election.event ⟨s, a, ⟨state, schedulers⟩⟩ = event := by
    simp [Election.event, turn]
  cases a with
  | expire i =>
    obtain ⟨session, used, same⟩ := Option.map_eq_some_iff.mp turn
    cases same
    exact .inl ⟨i, session, rfl, used, shown, rfl⟩
  | scheduler i b =>
    obtain ⟨⟨scheduler, event'⟩, moved, same⟩ := Option.map_eq_some_iff.mp turn
    cases same
    exact .inr ⟨i, b, scheduler, event, rfl, shown, Scheduler.turns moved, rfl⟩

/-- The service has let happen what the steps mean for the sessions. -/
theorem Elections.served (run : Elections past s) :
    service.after? (past.filterMap Election.event) = some s.state := by
  refine run.history (fun past s => service.after? (past.filterMap Election.event) = some s.state)
    rfl ?_
  intro past s a s' _ served step
  obtain ⟨⟨schedulers, event⟩, turn, made⟩ := Option.bind_eq_some_iff.mp step
  obtain ⟨state, answered, rfl⟩ := Option.map_eq_some_iff.mp made
  have shown : Election.event ⟨s, a, ⟨state, schedulers⟩⟩ = event := by
    simp [Election.event, turn]
  rw [filterMap_snoc, shown]
  cases event with
  | none => simpa [served] using answered
  | some event =>
    rw [Option.toList_some, Service.after?_snoc, served]
    exact answered

/-- What sessions the schedulers have, after some events. -/
structure Election.Sound (events : List Event) (s : Election service) : Prop where
  opened : ∀ i session, (s.schedulers i).phase.session = some session → .opened session ∈ events
  apart : ∀ i j session, (s.schedulers i).phase.session = some session →
    (s.schedulers j).phase.session = some session → i = j
  known : ∀ session, .resigned session ∈ events ∨ .closed session ∈ events →
    .opened session ∈ events
  kept : ∀ i session, (s.schedulers i).phase.held = some session →
    ¬(.resigned session ∈ events ∨ .closed session ∈ events)
  won : ∀ i session, (s.schedulers i).phase.won = some session → .won session ∈ events

namespace Election.Sound

/-- The end of a session changes no scheduler. -/
theorem expire {events : List Event} (sound : s.Sound events) (session : Nat)
    (same : s'.schedulers = s.schedulers) : s'.Sound (events ++ [.expired session]) where
  opened i other used := List.mem_append_left _ (sound.opened i other (same ▸ used))
  apart i j other used used' := sound.apart i j other (same ▸ used) (same ▸ used')
  known other given := List.mem_append_left _ (sound.known other (by simpa using given))
  kept i other held given := sound.kept i other (same ▸ held) (by simpa using given)
  won i other won := List.mem_append_left _ (sound.won i other (same ▸ won))

/--
What a scheduler has after a step of one of them, it had before or has by this step.

What it has is a session that its phase tells, and `news` is how it comes by one.
-/
theorem had_or_gets {part : Phase → Option Nat} {news : Nat → Event} {i j session : Nat}
    {scheduler : Scheduler} {event : Option Event}
    (own : part scheduler.phase = some session →
      part (s.schedulers i).phase = some session ∨ event = some (news session))
    (same : s'.schedulers = Function.update s.schedulers i scheduler)
    (has : part (s'.schedulers j).phase = some session) :
    part (s.schedulers j).phase = some session ∨ j = i ∧ event = some (news session) := by
  rw [same] at has
  by_cases acts : j = i
  · subst acts
    rw [Function.update_self] at has
    exact (own has).imp_right fun new => ⟨rfl, new⟩
  · rw [Function.update_of_ne acts] at has
    exact .inl has

/-- A step of one scheduler leaves the others with what they have. -/
theorem turn {events : List Event} (sound : s.Sound events) {i : Nat} {b : SchedulerAction}
    {scheduler : Scheduler} {event : Option Event}
    (turn : Turns (s.schedulers i).phase b scheduler.phase event)
    (fresh : ∀ session, event = some (.opened session) → .opened session ∉ events)
    (same : s'.schedulers = Function.update s.schedulers i scheduler) :
    s'.Sound (events ++ event.toList) := by
  have older : ∀ {e : Event}, e ∈ events → e ∈ events ++ event.toList :=
    List.mem_append_left _
  have newer : ∀ {e : Event}, event = some e → e ∈ events ++ event.toList := fun shown =>
    List.mem_append_right _ (Option.mem_toList.mpr shown)
  refine ⟨?_, ?_, ?_, ?_, ?_⟩
  · intro j session used
    rcases had_or_gets turn.open_session same used with old | ⟨-, new⟩
    · exact older (sound.opened j session old)
    · exact newer new
  · intro j j' session used used'
    -- A session that is new was not open anywhere.
    rcases had_or_gets turn.open_session same used with old | ⟨own, new⟩
    · rcases had_or_gets turn.open_session same used' with old' | ⟨-, new⟩
      · exact sound.apart j j' session old old'
      · exact absurd (sound.opened j session old) (fresh session new)
    · rcases had_or_gets turn.open_session same used' with old' | ⟨own', -⟩
      · exact absurd (sound.opened j' session old') (fresh session new)
      · rw [own, own']
  · intro session gone
    rcases turn.given_up gone with old | ⟨used, -⟩
    · exact older (sound.known session old)
    · exact older (sound.opened i session used)
  · intro j session held gone
    rcases turn.given_up gone with old | ⟨used, released⟩
    · rcases had_or_gets turn.held same held with before | ⟨-, new⟩
      · exact sound.kept j session before old
      · exact fresh session new (sound.known session old)
    · rw [same] at held
      by_cases own : j = i
      · rw [own, Function.update_self, released] at held
        cases held
      · -- The other scheduler has another session.
        rw [Function.update_of_ne own] at held
        exact own (sound.apart j i session (Phase.session_of_held held) used)
  · intro j session won
    rcases had_or_gets turn.won same won with old | ⟨-, new⟩
    · exact older (sound.won j session old)
    · exact newer new

/-- It holds throughout every election, if the service opens no session twice. -/
theorem of_run (exclusive : service.Exclusive) (run : Elections past s) :
    s.Sound (past.filterMap Election.event) := by
  refine run.history (fun past s => s.Sound (past.filterMap Election.event)) ⟨?_, ?_, ?_, ?_, ?_⟩ ?_
  · intro i session used
    cases used
  · intro i j session used
    cases used
  · rintro session (gone | gone) <;> cases gone
  · intro i session held
    cases held
  · intro i session won
    cases won
  · intro past s a s' before sound step
    have served := Elections.served (before.snoc step)
    rw [filterMap_snoc] at served ⊢
    rcases Election.step_inv step with
      ⟨i, session, -, -, shown, same⟩ | ⟨i, b, scheduler, event, -, shown, turn, same⟩
    · rw [shown]
      exact sound.expire session same
    · rw [shown] at served ⊢
      refine sound.turn turn (fun session opens => ?_) same
      rw [opens] at served
      exact exclusive.fresh _ session _ served

end Election.Sound

/-- A session that has expired did so while a scheduler had it open. -/
theorem expired_of_mem (run : Elections past s) {session : Nat}
    (ended : .expired session ∈ past.filterMap Election.event) : Expired past session := by
  obtain ⟨e, listed, shown⟩ := List.mem_filterMap.mp ended
  obtain ⟨-, step⟩ := run.of_mem listed
  rcases Election.step_inv step with
    ⟨i, other, label, used, shown', -⟩ | ⟨i, b, scheduler, event, -, shown', turn, -⟩
  · cases shown.symm.trans shown'
    exact ⟨e, listed, i, label, used⟩
  · exact absurd (shown'.symm.trans shown) turn.not_expires

/-- A session that has ended, although its scheduler has not given it up, has expired. -/
theorem Elections.expired_of_ended (exclusive : service.Exclusive) (run : Elections past s)
    {i session : Nat} (held : (s.schedulers i).phase.held = some session)
    (ended : Ended (past.filterMap Election.event) session) : Expired past session := by
  have kept := (Election.Sound.of_run exclusive run).kept i session held
  rcases ended with gone | gone | expired
  · exact absurd (.inl gone) kept
  · exact absurd (.inr gone) kept
  · exact expired_of_mem run expired

/-- Of two schedulers that have won, one has lost its session by expiry. -/
theorem Elections.expired_of_won (exclusive : service.Exclusive) (run : Elections past s)
    {i j : Nat} (distinct : i ≠ j) {session session' : Nat}
    (won : (s.schedulers i).phase.won = some session)
    (won' : (s.schedulers j).phase.won = some session') :
    Expired past session ∨ Expired past session' := by
  have sound := Election.Sound.of_run exclusive run
  have held := Phase.held_of_won won
  have held' := Phase.held_of_won won'
  rcases exclusive.single _ _ run.served session session' (sound.won i session won)
    (sound.won j session' won') with rfl | ended | ended
  · -- They would have the same session.
    exact absurd (sound.apart i j session (Phase.session_of_held held)
      (Phase.session_of_held held')) distinct
  · exact .inl (run.expired_of_ended exclusive held ended)
  · exact .inr (run.expired_of_ended exclusive held' ended)

/-- Whether `Campaign` has returned and the loops have not. -/
def Phase.leads : Phase → Bool
  | leading .. => true
  | _ => false

theorem Phase.won_of_leads {phase : Phase} (leads : phase.leads = true) :
    ∃ session, phase.won = some session := by
  cases phase with
  | leading session running => exact ⟨session, rfl⟩
  | _ => cases leads

/-- The gauge of a scheduler says whether it leads. -/
theorem Scheduler.isLeader_step {s s' : Scheduler} {a : SchedulerAction} {event : Option Event}
    (shown : s.isLeader = s.phase.leads) (step : s.step? a = some (s', event)) :
    s'.isLeader = s'.phase.leads := by
  obtain ⟨⟨phase, event'⟩, moved, same⟩ := Option.map_eq_some_iff.mp step
  cases same
  -- It is set with the victory and after the loops, and all other moves stay on one side.
  generalize before : s.phase = p at shown
  have turn := before ▸ Scheduler.turns_of_move moved
  cases turn with
  | @close _ failed => cases failed <;> exact shown
  | win | lose | wait => rfl
  | _ => exact shown

/-- The gauges are right throughout every election. -/
theorem Elections.isLeader_eq (run : Elections past s) (i : Nat) :
    (s.schedulers i).isLeader = (s.schedulers i).phase.leads := by
  refine run.invariant (fun s => ∀ i, (s.schedulers i).isLeader = (s.schedulers i).phase.leads)
    (fun _ => rfl) ?_ i
  intro s a s' shown step i
  obtain ⟨⟨schedulers, event⟩, turn, made⟩ := Option.bind_eq_some_iff.mp step
  obtain ⟨state, -, rfl⟩ := Option.map_eq_some_iff.mp made
  cases a with
  | expire j =>
    obtain ⟨session, -, same⟩ := Option.map_eq_some_iff.mp turn
    cases same
    exact shown i
  | scheduler j b =>
    obtain ⟨⟨scheduler, event'⟩, moved, same⟩ := Option.map_eq_some_iff.mp turn
    cases same
    by_cases own : i = j
    · subst own
      simp only [Function.update_self]
      exact Scheduler.isLeader_step (shown i) moved
    · simp only [Function.update_of_ne own]
      exact shown i

/--
Two schedulers lead at the same time only if the session of one of them has expired.

Leading lasts until all loops have returned, and the session is given up only after that. What is
assumed of the service is that it opens no session twice, and that of two sessions that have won one
has resigned, been closed or expired.
-/
theorem leaders_overlap_expired (exclusive : service.Exclusive) (run : Elections past s)
    {i j : Nat} (distinct : i ≠ j) (leads : (s.schedulers i).isLeader = true)
    (leads' : (s.schedulers j).isLeader = true) :
    ∃ session session', (s.schedulers i).phase.won = some session ∧
      (s.schedulers j).phase.won = some session' ∧
      (Expired past session ∨ Expired past session') := by
  obtain ⟨session, won⟩ := Phase.won_of_leads (run.isLeader_eq i ▸ leads)
  obtain ⟨session', won'⟩ := Phase.won_of_leads (run.isLeader_eq j ▸ leads')
  exact ⟨session, session', won, won', run.expired_of_won exclusive distinct won won'⟩

/-- The election over a lock after a list of actions, all of which have to be possible. -/
def afterElection (actions : List ElectionAction) : Election lock :=
  actions.foldl (fun s a => (s.step? a).getD s) (Election.start lock)

/-- A leader loses its session without noticing, and the next in line takes over. -/
def lostSession : List ElectionAction :=
  [.scheduler 0 .enter, .scheduler 0 (.newSession (some 0)), .scheduler 1 .enter,
    .scheduler 1 (.newSession (some 1)), .scheduler 0 (.campaign true), .expire 0,
    .scheduler 1 (.campaign true)]

theorem leaders_overlap_expired_lost :
    ∃ past session session', Elections past (afterElection lostSession) ∧
      ((afterElection lostSession).schedulers 0).phase.won = some session ∧
      ((afterElection lostSession).schedulers 1).phase.won = some session' ∧
      (Expired past session ∨ Expired past session') := by
  have run := run_of_some Election.step? lostSession (Election.start lock) (by decide +kernel)
  obtain ⟨session, session', found⟩ := leaders_overlap_expired lock_exclusive run
    (show (0 : Nat) ≠ 1 by decide) (by decide +kernel) (by decide +kernel)
  exact ⟨_, session, session', run, found⟩

end Sluice
