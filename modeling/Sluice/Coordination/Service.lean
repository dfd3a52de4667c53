import Mathlib.Data.List.Induction

/-! Services that elect one of their clients, known only by what they let happen to sessions. -/

namespace Coordination

/-- What happens to a session. -/
inductive Event where
  | opened (session : Nat)
  -- A campaign of the client has succeeded.
  | won (session : Nat)
  -- The client has asked to give up what it has won, whatever becomes of that.
  | resigned (session : Nat)
  | closed (session : Nat)
  -- The session was not kept alive.
  | expired (session : Nat)
  deriving DecidableEq

/-- A service, by the events that it lets happen. -/
structure Service where
  State : Type
  start : State
  step? : State → Event → Option State

/-- A session has ended, by its client's own doing or otherwise. -/
def Ended (events : List Event) (session : Nat) : Prop :=
  .resigned session ∈ events ∨ .closed session ∈ events ∨ .expired session ∈ events

namespace Service

variable {service : Service} {events : List Event} {s : service.State}

/-- The state of a service after some events, if it lets them happen. -/
def after? (service : Service) (events : List Event) : Option service.State :=
  events.foldlM service.step? service.start

/-- What clients expect of a service that elects one of them at a time. -/
structure Exclusive (service : Service) : Prop where
  -- No session is opened twice.
  fresh : ∀ events session s, service.after? (events ++ [.opened session]) = some s →
    .opened session ∉ events
  -- Of two sessions that have won, one has ended.
  single : ∀ events s, service.after? events = some s → ∀ session session',
    .won session ∈ events → .won session' ∈ events →
      session = session' ∨ Ended events session ∨ Ended events session'

/-- One more event is one more step. -/
theorem after?_snoc (service : Service) (events : List Event) (e : Event) :
    service.after? (events ++ [e]) = (service.after? events).bind (service.step? · e) := by
  simp [after?, List.foldlM_append]

/-- What holds at first and is kept by every event holds after all histories. -/
theorem along (Inv : List Event → service.State → Prop) (init : Inv [] service.start)
    (keep : ∀ events s e s', Inv events s → service.step? s e = some s' → Inv (events ++ [e]) s')
    (happened : service.after? events = some s) : Inv events s := by
  induction events using List.reverseRecOn generalizing s with
  | nil =>
    cases happened
    exact init
  | append_singleton events e ih =>
    rw [after?_snoc] at happened
    obtain ⟨before, earlier, step⟩ := Option.bind_eq_some_iff.mp happened
    exact keep events before e s (ih earlier) step

end Service

/-! The simplest service of this kind. -/

/-- A lock, with the number of sessions so far and the session that holds it. -/
structure Lock where
  sessions : Nat
  holder : Option Nat

/-- The lock without a session, if that is the one that holds it. -/
def Lock.release (l : Lock) (session : Nat) : Lock :=
  if l.holder = some session then { l with holder := none } else l

/-- The lock after an event, if it lets it happen. -/
def Lock.step? (l : Lock) : Event → Option Lock
  | .opened session =>
    if session = l.sessions then some { l with sessions := session + 1 } else none
  | .won session => if l.holder = none then some { l with holder := some session } else none
  | .resigned session | .closed session | .expired session => some (l.release session)

/-- The service that hands out a lock. -/
def lock : Service := ⟨Lock, ⟨0, none⟩, Lock.step?⟩

/-- What a lock knows of the sessions. -/
structure Lock.Sound (events : List Event) (l : Lock) : Prop where
  numbered : ∀ session, .opened session ∈ events → session < l.sessions
  held : ∀ session, .won session ∈ events → Ended events session ∨ l.holder = some session

/-- An ended session stays ended. -/
theorem Ended.snoc {events : List Event} {session : Nat} (ended : Ended events session)
    (e : Event) : Ended (events ++ [e]) session := by
  unfold Ended at ended ⊢
  simp only [List.mem_append]
  tauto

/-- The end of a session frees the lock, or another session holds it. -/
theorem Lock.Sound.release {events : List Event} {l : Lock} (sound : l.Sound events)
    {session : Nat} {e : Event} (ends : e = .resigned session ∨ e = .closed session ∨
      e = .expired session) : (l.release session).Sound (events ++ [e]) := by
  have kept : (l.release session).sessions = l.sessions := by
    unfold Lock.release
    split <;> rfl
  refine ⟨fun other opened => ?_, fun other won => ?_⟩
  · rw [kept]
    rcases List.mem_append.mp opened with old | new
    · exact sound.numbered other old
    · rcases ends with rfl | rfl | rfl <;> cases List.mem_singleton.mp new
  · have old : .won other ∈ events := by
      rcases List.mem_append.mp won with old | new
      · exact old
      · rcases ends with rfl | rfl | rfl <;> cases List.mem_singleton.mp new
    rcases sound.held other old with ended | holds
    · exact .inl (ended.snoc e)
    · by_cases own : other = session
      · subst own
        exact .inl (by rcases ends with rfl | rfl | rfl <;> simp [Ended])
      · refine .inr ?_
        rw [Lock.release, if_neg (by rw [holds]; simpa using own)]
        exact holds

/-- Every event keeps the lock's knowledge right. -/
theorem Lock.Sound.step {events : List Event} {l l' : Lock} {e : Event} (sound : l.Sound events)
    (step : l.step? e = some l') : l'.Sound (events ++ [e]) := by
  cases e with
  | opened session =>
    simp only [Lock.step?, Option.ite_none_right_eq_some, Option.some.injEq] at step
    obtain ⟨next, rfl⟩ := step
    refine ⟨fun other opened => ?_, fun other won => ?_⟩
    · rcases List.mem_append.mp opened with old | new
      · exact Nat.lt_succ_of_lt (next ▸ sound.numbered other old)
      · cases List.mem_singleton.mp new
        exact Nat.lt_succ_self _
    · have old : .won other ∈ events := by simpa using won
      exact (sound.held other old).imp (·.snoc _) id
  | won session =>
    simp only [Lock.step?, Option.ite_none_right_eq_some, Option.some.injEq] at step
    obtain ⟨free, rfl⟩ := step
    refine ⟨fun other opened => sound.numbered other (by simpa using opened), fun other won => ?_⟩
    rcases List.mem_append.mp won with old | new
    · -- Nobody held the lock, so the others have ended.
      refine .inl (((sound.held other old).resolve_right ?_).snoc _)
      rw [free]
      exact nofun
    · cases List.mem_singleton.mp new
      exact .inr rfl
  | resigned | closed | expired =>
    cases step
    exact sound.release (by simp)

/-- A lock meets the expectations. -/
theorem lock_exclusive : lock.Exclusive := by
  have known : ∀ {events l}, lock.after? events = some l → Lock.Sound events l := fun happened =>
    Service.along Lock.Sound ⟨nofun, nofun⟩ (fun _ _ _ _ sound step => sound.step step) happened
  constructor
  · intro events session l happened again
    rw [Service.after?_snoc] at happened
    obtain ⟨before, earlier, step⟩ := Option.bind_eq_some_iff.mp happened
    have less := (known earlier).numbered session again
    have next : session = before.sessions := by
      by_contra other
      simp [lock, Lock.step?, other] at step
    omega
  · intro events l happened session session' won won'
    have sound := known happened
    rcases sound.held session won with ended | holds
    · exact .inr (.inl ended)
    · rcases sound.held session' won' with ended | holds'
      · exact .inr (.inr ended)
      · exact .inl (Option.some.inj (holds.symm.trans holds'))

end Coordination
