import Mathlib.Data.List.Nodup
import Mathlib.Data.List.Perm.Lattice
import Mathlib.Logic.Function.Basic
import Sluice.Transition.Run

/-! Calls that lock one row each, and the serial order that their commits and skips leave behind. -/

namespace Relational

open Transition

/--
A family of calls on one store, each of which acts on a single row under that row's lock.

A call either acts, if the row meets its condition, or does nothing.
-/
structure Protocol (σ κ ρ ι : Type) where
  view : σ → κ → ρ
  key : ι → κ
  enabled : ι → ρ → Bool
  effect : ι → σ → σ
  -- Whether the call gives up on a row that is locked in place of waiting for it.
  skips : ι → Bool
  -- An effect shows in its own row only.
  frame : ∀ c s k, k ≠ key c → view (effect c s) k = view s k
  -- A call that skips a locked row could not have acted after the holder either.
  settles : ∀ c holder s, skips c = true → key holder = key c →
    enabled c (view s (key c)) = true → enabled holder (view s (key c)) = true →
    enabled c (view (effect holder s) (key c)) = false

/-- How far a call has come. -/
inductive Phase where
  | idle
  -- The condition was met when the call looked at the row, whose lock it does not have yet.
  | matched
  | holding
  | done (won : Bool)
  deriving DecidableEq

/-- A store with calls under way on it. -/
structure LockState (σ ι : Type) where
  store : σ
  phase : ι → Phase

/-- Whether a call is done and has acted. -/
def LockState.won {σ ι : Type} (st : LockState σ ι) (c : ι) : Bool := st.phase c == .done true

namespace Protocol

variable {σ κ ρ ι : Type} (P : Protocol σ κ ρ ι)

/-- Whether the call could act on the store as it is. -/
def ready (c : ι) (s : σ) : Bool := P.enabled c (P.view s (P.key c))

/-- The call as one atomic step, with whether it acted. -/
def attempt (c : ι) (s : σ) : σ × Bool := if P.ready c s then (P.effect c s, true) else (s, false)

/-- The calls one after the other, with whether each of them acted. -/
def serial (s : σ) : List ι → σ × List Bool
  | [] => (s, [])
  | c :: order =>
    ((serial (P.attempt c s).1 order).1, (P.attempt c s).2 :: (serial (P.attempt c s).1 order).2)

/-- A call that is not ready changes nothing. -/
theorem attempt_idle {c : ι} {s : σ} (blocked : P.ready c s = false) :
    P.attempt c s = (s, false) := by
  simp [attempt, blocked]

/-- A ready call acts. -/
theorem attempt_ready {c : ι} {s : σ} (ready : P.ready c s = true) :
    P.attempt c s = (P.effect c s, true) := by
  simp [attempt, ready]

/-- Only an effect on the same row can make a call ready or unready. -/
theorem ready_effect {c d : ι} (ne : P.key d ≠ P.key c) (s : σ) :
    P.ready d (P.effect c s) = P.ready d s := by
  -- Readiness reads the row of the call, where the effect does not show.
  rw [ready, ready, P.frame c s (P.key d) ne]

/-- An attempt on another row does not show. -/
theorem attempt_frame {c : ι} {k : κ} (ne : P.key c ≠ k) (s : σ) :
    P.view (P.attempt c s).1 k = P.view s k := by
  -- The attempt is the effect or nothing.
  unfold attempt
  split
  · exact P.frame c s k ne.symm
  · rfl

/-- Serial execution can be cut anywhere. -/
theorem serial_append (s : σ) (first second : List ι) :
    P.serial s (first ++ second) =
      ((P.serial (P.serial s first).1 second).1,
        (P.serial s first).2 ++ (P.serial (P.serial s first).1 second).2) := by
  -- The store is handed on from call to call, so it varies in the induction.
  induction first generalizing s with
  | nil => rfl
  | cons c first ih => simp [serial, ih]

/-- Calls that are not ready leave the store to each other. -/
theorem serial_idle {s : σ} {order : List ι} (blocked : ∀ c ∈ order, P.ready c s = false) :
    P.serial s order = (s, order.map fun _ => false) := by
  induction order with
  | nil => rfl
  | cons c order ih =>
    -- The first call hands on the store as it got it, so the others are still not ready.
    rw [List.forall_mem_cons] at blocked
    simp [serial, P.attempt_idle blocked.1, ih blocked.2]

/-- A row that no call is ready to act on stays as it is, and those calls do nothing. -/
theorem serial_blocked {s s' : σ} {order : List ι} {won : ι → Bool} {k : κ}
    (replay : P.serial s order = (s', order.map won))
    (blocked : ∀ c ∈ order, P.key c = k → P.enabled c (P.view s k) = false) :
    P.view s' k = P.view s k ∧ ∀ c ∈ order, P.key c = k → won c = false := by
  induction order generalizing s with
  | nil =>
    cases replay
    exact ⟨rfl, by simp⟩
  | cons c order ih =>
    rw [List.forall_mem_cons] at blocked
    obtain ⟨first, rest⟩ := blocked
    simp only [serial, List.map_cons, Prod.mk.injEq, List.cons.injEq] at replay
    obtain ⟨store, result, results⟩ := replay
    -- The first call leaves the row alone, whether or not it is about this row.
    have same : P.view (P.attempt c s).1 k = P.view s k := by
      by_cases here : P.key c = k
      · rw [P.attempt_idle (by rw [ready, here]; exact first here)]
      · exact P.attempt_frame here s
    have later := ih (Prod.ext store results) (by rwa [same])
    refine ⟨later.1.trans same, List.forall_mem_cons.mpr ⟨fun here => ?_, later.2⟩⟩
    -- If it is about this row, it has not acted.
    rw [← result, P.attempt_idle (by rw [ready, here]; exact first here)]

/-- Of several calls that disable one another on a row, exactly one acts. -/
theorem serial_contested {s s' : σ} {order : List ι} {won : ι → Bool} {k : κ}
    (replay : P.serial s order = (s', order.map won)) (contested : ∃ c ∈ order, P.key c = k)
    (ready : ∀ c ∈ order, P.key c = k → P.enabled c (P.view s k) = true)
    (disables : ∀ c ∈ order, ∀ winner ∈ order, P.key c = k → P.key winner = k →
      ∀ t, P.view t k = P.view s k → P.enabled c (P.view (P.effect winner t) k) = false) :
    ∃ winner ∈ order, P.key winner = k ∧ won winner = true ∧
      (∀ c ∈ order, P.key c = k → c ≠ winner → won c = false) ∧
      ∃ t, P.view t k = P.view s k ∧ P.view s' k = P.view (P.effect winner t) k := by
  induction order generalizing s with
  | nil => simp at contested
  | cons c order ih =>
    simp only [serial, List.map_cons, Prod.mk.injEq, List.cons.injEq] at replay
    obtain ⟨store, result, results⟩ := replay
    by_cases here : P.key c = k
    · -- The first call on the row acts, and the others find it changed.
      have acts : P.attempt c s = (P.effect c s, true) :=
        P.attempt_ready (by rw [Protocol.ready, here]; exact ready c List.mem_cons_self here)
      rw [acts] at store result results
      have rest := P.serial_blocked (Prod.ext store results) fun d listed same =>
        disables d (List.mem_cons_of_mem c listed) c List.mem_cons_self same here s rfl
      refine ⟨c, List.mem_cons_self, here, result.symm, ?_, s, rfl, rest.1⟩
      intro d listed same other
      exact rest.2 d ((List.mem_cons.mp listed).resolve_left other) same
    · -- A call on another row leaves the contest to the later ones.
      have same : P.view (P.attempt c s).1 k = P.view s k := P.attempt_frame here s
      have inside : ∀ d ∈ c :: order, P.key d = k → d ∈ order := fun d listed at_k =>
        (List.mem_cons.mp listed).resolve_left fun eq => here (eq ▸ at_k)
      obtain ⟨d, listed, at_k⟩ := contested
      obtain ⟨winner, member, at_k', wins, losers, t, view, final⟩ := ih (Prod.ext store results)
        ⟨d, inside d listed at_k, at_k⟩
        (fun d listed => by rw [same]; exact ready d (List.mem_cons_of_mem c listed))
        (fun d listed e listed' first second t view => disables d (List.mem_cons_of_mem c listed)
          e (List.mem_cons_of_mem c listed') first second t (view.trans same))
      exact ⟨winner, List.mem_cons_of_mem c member, at_k', wins,
        fun d listed at_k => losers d (inside d listed at_k) at_k, t, view.trans same, final⟩

end Protocol

variable {σ κ ρ ι : Type}

/-- Every lock has one holder, whose condition is still met by the row it has locked. -/
structure Protocol.Guarded (P : Protocol σ κ ρ ι) (st : LockState σ ι) : Prop where
  ready : ∀ c, st.phase c = .holding → P.ready c st.store = true
  apart : ∀ c d, st.phase c = .holding → st.phase d = .holding → P.key c = P.key d → c = d

/--
A serial order of the calls that are done, apart from those that wait for a holder's commit.

A call that skipped a row is placed right after the holder, where its condition is not met.
-/
structure Protocol.Ordered (P : Protocol σ κ ρ ι) (start : σ) (order skipped : List ι)
    (st : LockState σ ι) : Prop where
  nodup : (order ++ skipped).Nodup
  finished : ∀ c, c ∈ order ++ skipped ↔ ∃ won, st.phase c = .done won
  replay : P.serial start order = (st.store, order.map st.won)
  waiting : ∀ c ∈ skipped, st.phase c = .done false ∧ P.skips c = true ∧
    P.ready c st.store = true ∧ ∃ holder, st.phase holder = .holding ∧ P.key holder = P.key c

/-- A call under way is not among those that are done. -/
theorem Protocol.Ordered.fresh {P : Protocol σ κ ρ ι} {start : σ} {order skipped : List ι}
    {st : LockState σ ι} {c : ι} (ordered : P.Ordered start order skipped st)
    (fresh : ∀ won, st.phase c ≠ .done won) : c ∉ order ++ skipped := by
  -- Exactly the finished calls are listed.
  intro listed
  obtain ⟨won, done⟩ := (ordered.finished c).mp listed
  exact fresh won done

variable [DecidableEq ι]

/-- A call moves on to its next phase. -/
def LockState.advance (st : LockState σ ι) (c : ι) (phase : Phase) : LockState σ ι :=
  { st with phase := Function.update st.phase c phase }

/-- What a call can do next, given what the others hold. -/
inductive Protocol.Step (P : Protocol σ κ ρ ι) : LockState σ ι → ι → LockState σ ι → Prop where
  -- The row does not meet the condition, whoever may hold its lock.
  | miss {st : LockState σ ι} {c : ι} (phase : st.phase c = .idle)
      (blocked : P.ready c st.store = false) : Step P st c (st.advance c (.done false))
  | hit {st : LockState σ ι} {c : ι} (phase : st.phase c = .idle)
      (ready : P.ready c st.store = true) : Step P st c (st.advance c .matched)
  -- Once the lock is free, the condition is asked again.
  | lock {st : LockState σ ι} {c : ι} (phase : st.phase c = .matched)
      (free : ∀ other, st.phase other = .holding → P.key other ≠ P.key c)
      (ready : P.ready c st.store = true) : Step P st c (st.advance c .holding)
  | lose {st : LockState σ ι} {c : ι} (phase : st.phase c = .matched)
      (blocked : P.ready c st.store = false) : Step P st c (st.advance c (.done false))
  | skip {st : LockState σ ι} {c holder : ι} (phase : st.phase c = .matched)
      (skips : P.skips c = true) (held : st.phase holder = .holding)
      (same : P.key holder = P.key c) : Step P st c (st.advance c (.done false))
  | commit {st : LockState σ ι} {c : ι} (phase : st.phase c = .holding) :
      Step P st c ({ st with store := P.effect c st.store }.advance c (.done true))

namespace LockState

variable {st : LockState σ ι} {c : ι} {phase : Phase}

@[simp] theorem advance_store : (st.advance c phase).store = st.store := rfl

@[simp] theorem advance_self : (st.advance c phase).phase c = phase := Function.update_self ..

@[simp] theorem advance_of_ne {other : ι} (ne : other ≠ c) :
    (st.advance c phase).phase other = st.phase other := Function.update_of_ne ne ..

/-- Results do not depend on what another call does. -/
theorem map_won_advance {order : List ι} (absent : c ∉ order) :
    order.map (st.advance c phase).won = order.map st.won := by
  -- None of the listed calls is the one that moved.
  refine List.map_congr_left fun other listed => ?_
  have ne : other ≠ c := fun same => absent (same ▸ listed)
  simp [won, ne]

end LockState

namespace Protocol

variable {P : Protocol σ κ ρ ι} {start : σ} {order skipped : List ι} {st st' : LockState σ ι}
  {c : ι}

/-- Locks stay with one holder each. -/
theorem Guarded.step (guarded : P.Guarded st) (step : P.Step st c st') : P.Guarded st' := by
  -- Holders other than the acting call are the same before and after.
  have moved : ∀ phase : Phase, phase ≠ .holding → P.Guarded (st.advance c phase) := by
    intro phase released
    refine ⟨fun d held => ?_, fun d e first second same => ?_⟩
    -- The acting call is no holder afterwards, so every holder is an old one.
    · by_cases eq : d = c
      · subst eq
        rw [LockState.advance_self] at held
        exact absurd held released
      · exact guarded.ready d (by rwa [LockState.advance_of_ne eq] at held)
    · by_cases eq : d = c
      · subst eq
        rw [LockState.advance_self] at first
        exact absurd first released
      · by_cases eq' : e = c
        · subst eq'
          rw [LockState.advance_self] at second
          exact absurd second released
        · rw [LockState.advance_of_ne eq] at first
          rw [LockState.advance_of_ne eq'] at second
          exact guarded.apart d e first second same
  cases step with
  | miss | lose | skip => exact moved _ (by simp)
  | hit => exact moved _ (by simp)
  | lock _ free ready =>
    -- The new holder has just looked at the row, and nobody else held its lock.
    refine ⟨fun d held => ?_, fun d e first second same => ?_⟩
    · by_cases eq : d = c
      · rw [eq]
        exact ready
      · exact guarded.ready d (by rwa [LockState.advance_of_ne eq] at held)
    · by_cases eq : d = c
      · by_cases eq' : e = c
        · rw [eq, eq']
        · rw [LockState.advance_of_ne eq'] at second
          exact absurd (eq ▸ same.symm) (free e second)
      · rw [LockState.advance_of_ne eq] at first
        by_cases eq' : e = c
        · exact absurd (eq' ▸ same) (free d first)
        · rw [LockState.advance_of_ne eq'] at second
          exact guarded.apart d e first second same
  | commit phase =>
    -- The effect shows in the row of the committing call, which nobody else holds.
    have released := moved (.done true) (by simp)
    refine ⟨fun d held => ?_, released.apart⟩
    have before : (st.advance c (.done true)).phase d = .holding := held
    have other : d ≠ c := by
      rintro rfl
      rw [LockState.advance_self] at before
      cases before
    rw [LockState.advance_of_ne other] at before
    have apart : P.key d ≠ P.key c := fun same => other (guarded.apart d c before phase same)
    have ready : P.ready d (P.effect c st.store) = true := by
      rw [P.ready_effect apart]
      exact guarded.ready d before
    exact ready

/-- Finishing a call adds it to those that are done. -/
theorem finished_advance (st : LockState σ ι) {done : List ι}
    (finished : ∀ d, d ∈ done ↔ ∃ won, st.phase d = .done won) (won : Bool) (d : ι) :
    d ∈ c :: done ↔ ∃ result, (st.advance c (.done won)).phase d = .done result := by
  -- Only the call itself changes its phase.
  by_cases eq : d = c
  · subst eq
    simp
  · rw [LockState.advance_of_ne eq, List.mem_cons, or_iff_right eq]
    exact finished d

/-- Calls that wait for a holder keep waiting while others than the holder move. -/
theorem Ordered.waiting_advance (ordered : P.Ordered start order skipped st)
    (fresh : ∀ won, st.phase c ≠ .done won) (loose : st.phase c ≠ .holding) (phase : Phase) :
    ∀ d ∈ skipped, (st.advance c phase).phase d = .done false ∧ P.skips d = true ∧
      P.ready d st.store = true ∧
      ∃ holder, (st.advance c phase).phase holder = .holding ∧ P.key holder = P.key d := by
  -- The call that moves is neither a waiting call, which is done, nor a holder.
  intro d listed
  obtain ⟨done, skips, ready, holder, held, same⟩ := ordered.waiting d listed
  have ne : d ≠ c := by
    rintro rfl
    exact fresh false done
  have ne' : holder ≠ c := by
    rintro rfl
    exact loose held
  refine ⟨?_, skips, ready, holder, ?_, same⟩
  · rw [LockState.advance_of_ne ne, done]
  · rw [LockState.advance_of_ne ne', held]

/-- A call that is under way before and after a step has no place in the order yet. -/
theorem Ordered.move (ordered : P.Ordered start order skipped st)
    (fresh : ∀ won, st.phase c ≠ .done won) (loose : st.phase c ≠ .holding) {phase : Phase}
    (fresh' : ∀ won, phase ≠ .done won) : P.Ordered start order skipped (st.advance c phase) := by
  -- Neither the store nor the set of finished calls changes.
  have absent := ordered.fresh fresh
  refine ⟨ordered.nodup, fun d => ?_, ?_, ordered.waiting_advance fresh loose phase⟩
  · rw [ordered.finished d]
    by_cases eq : d = c
    · subst eq
      simp [fresh, fresh']
    · rw [LockState.advance_of_ne eq]
  · rw [ordered.replay, LockState.map_won_advance fun listed => absent (by simp [listed])]
    rfl

/-- A call whose condition is not met finishes at the end of the order. -/
theorem Ordered.lose (ordered : P.Ordered start order skipped st)
    (fresh : ∀ won, st.phase c ≠ .done won) (loose : st.phase c ≠ .holding)
    (blocked : P.ready c st.store = false) :
    P.Ordered start (order ++ [c]) skipped (st.advance c (.done false)) := by
  -- The store is the result of the order so far, and on it the call does nothing.
  have absent := ordered.fresh fresh
  have arranged : (order ++ [c] ++ skipped).Perm (c :: (order ++ skipped)) := by
    rw [List.append_assoc]
    exact List.perm_middle
  refine ⟨?_, fun d => ?_, ?_, ordered.waiting_advance fresh loose _⟩
  · exact arranged.nodup_iff.mpr (List.nodup_cons.mpr ⟨absent, ordered.nodup⟩)
  · rw [arranged.mem_iff]
    exact finished_advance st ordered.finished false d
  · rw [P.serial_append, ordered.replay, P.serial_idle (by simpa using blocked), List.map_append,
      LockState.map_won_advance fun listed => absent (by simp [listed])]
    simp [LockState.won]

/-- A call that skips a row it could act on waits for the holder. -/
theorem Ordered.defer (ordered : P.Ordered start order skipped st)
    (fresh : ∀ won, st.phase c ≠ .done won) (loose : st.phase c ≠ .holding)
    (skips : P.skips c = true) (ready : P.ready c st.store = true) {holder : ι}
    (held : st.phase holder = .holding) (same : P.key holder = P.key c) :
    P.Ordered start order (skipped ++ [c]) (st.advance c (.done false)) := by
  -- On the store as it is the call would act, so its place is yet to come.
  have absent := ordered.fresh fresh
  have arranged : (order ++ (skipped ++ [c])).Perm (c :: (order ++ skipped)) := by
    rw [← List.append_assoc]
    exact List.perm_append_singleton _ _
  refine ⟨?_, fun d => ?_, ?_, fun d listed => ?_⟩
  · exact arranged.nodup_iff.mpr (List.nodup_cons.mpr ⟨absent, ordered.nodup⟩)
  · rw [arranged.mem_iff]
    exact finished_advance st ordered.finished false d
  · rw [ordered.replay, LockState.map_won_advance fun listed => absent (by simp [listed])]
    rfl
  · rcases List.mem_append.mp listed with old | new
    · exact ordered.waiting_advance fresh loose _ d old
    · rw [List.mem_singleton.mp new]
      have ne : holder ≠ c := by
        rintro rfl
        exact loose held
      exact ⟨LockState.advance_self, skips, ready, holder,
        by rw [LockState.advance_of_ne ne, held], same⟩

/-- A commit takes the next place in the order, followed by the calls that skipped the row. -/
theorem Ordered.commit [DecidableEq κ] (ordered : P.Ordered start order skipped st)
    (guarded : P.Guarded st) (held : st.phase c = .holding) :
    P.Ordered start (order ++ c :: skipped.filter fun d => P.key d = P.key c)
      (skipped.filter fun d => !decide (P.key d = P.key c))
      ({ st with store := P.effect c st.store }.advance c (.done true)) := by
  have fresh : ∀ won, st.phase c ≠ .done won := by
    intro won done
    rw [held] at done
    cases done
  have absent := ordered.fresh fresh
  -- The lock has kept the row as the call found it.
  have ready := guarded.ready c held
  -- The calls that skipped the row are those whose holder is the committing call.
  have arranged : (order ++ c :: (skipped.filter fun d => P.key d = P.key c) ++
      skipped.filter fun d => !decide (P.key d = P.key c)).Perm (c :: (order ++ skipped)) := by
    rw [List.append_assoc, List.cons_append]
    exact List.perm_middle.trans
      (((List.filter_append_perm _ skipped).append_left order).cons c)
  refine ⟨?_, fun d => ?_, ?_, fun d listed => ?_⟩
  · exact arranged.nodup_iff.mpr (List.nodup_cons.mpr ⟨absent, ordered.nodup⟩)
  · rw [arranged.mem_iff]
    exact finished_advance { st with store := P.effect c st.store } ordered.finished true d
  · -- After the effect none of them is ready any more.
    have settled : ∀ d ∈ skipped.filter fun d => P.key d = P.key c,
        P.ready d (P.effect c st.store) = false := by
      intro d listed
      obtain ⟨member, same⟩ := List.mem_filter.mp listed
      obtain ⟨-, skips, waiting, -⟩ := ordered.waiting d member
      have same : P.key d = P.key c := of_decide_eq_true same
      exact P.settles d c st.store skips same.symm waiting (by rw [same]; exact ready)
    have results : (skipped.filter fun d => P.key d = P.key c).map
        ({ st with store := P.effect c st.store }.advance c (.done true)).won =
        (skipped.filter fun d => P.key d = P.key c).map fun _ => false := by
      refine List.map_congr_left fun d listed => ?_
      have member := (List.mem_filter.mp listed).1
      have ne : d ≠ c := fun eq => absent (by simp [← eq, member])
      have done := (ordered.waiting d member).1
      simp [LockState.won, ne, done]
    rw [P.serial_append, ordered.replay, serial, P.attempt_ready ready, P.serial_idle settled,
      List.map_append, List.map_cons, results,
      LockState.map_won_advance fun listed => absent (by simp [listed])]
    simp [LockState.won]
  · -- The other waiting calls have another holder, and the effect is not on their row.
    obtain ⟨member, differ⟩ := List.mem_filter.mp listed
    obtain ⟨done, skips, waiting, holder, holds, same⟩ := ordered.waiting d member
    have differ : P.key d ≠ P.key c := by simpa using differ
    have ne : d ≠ c := fun eq => differ (by rw [eq])
    have ne' : holder ≠ c := by
      rintro rfl
      exact differ same.symm
    refine ⟨?_, skips, ?_, holder, ?_, same⟩
    · rw [LockState.advance_of_ne ne, done]
    · rw [LockState.advance_store, P.ready_effect differ, waiting]
    · rw [LockState.advance_of_ne ne', holds]

/-- Every step keeps some serial order of the calls that are done. -/
theorem Ordered.step [DecidableEq κ] (ordered : P.Ordered start order skipped st)
    (guarded : P.Guarded st) (step : P.Step st c st') :
    ∃ order' skipped', P.Ordered start order' skipped' st' := by
  -- Only finishing changes the order, and a commit also settles those that wait for it.
  cases step with
  | miss phase blocked =>
    exact ⟨_, _, ordered.lose (by simp [phase]) (by simp [phase]) blocked⟩
  | lose phase blocked =>
    exact ⟨_, _, ordered.lose (by simp [phase]) (by simp [phase]) blocked⟩
  | hit phase => exact ⟨_, _, ordered.move (by simp [phase]) (by simp [phase]) (by simp)⟩
  | lock phase => exact ⟨_, _, ordered.move (by simp [phase]) (by simp [phase]) (by simp)⟩
  | skip phase skips held same =>
    -- The row may have changed since the call looked, in which case it simply loses.
    cases ready : P.ready c st.store with
    | false => exact ⟨_, _, ordered.lose (by simp [phase]) (by simp [phase]) ready⟩
    | true =>
      exact ⟨_, _, ordered.defer (by simp [phase]) (by simp [phase]) skips ready held same⟩
  | commit phase => exact ⟨_, _, ordered.commit guarded phase⟩

/-- The states that calls on a store can reach, starting with none under way. -/
abbrev Reaches (P : Protocol σ κ ρ ι) (start : σ) (past : List (Transition.Step (LockState σ ι) ι))
    (st : LockState σ ι) : Prop :=
  Run P.Step ⟨start, fun _ => .idle⟩ past st

/-- Locks are guarded, and what is done has a serial order, in every state that can be reached. -/
theorem Reaches.ordered [DecidableEq κ] {past : List (Transition.Step (LockState σ ι) ι)}
    (run : P.Reaches start past st) :
    P.Guarded st ∧ ∃ order skipped, P.Ordered start order skipped st := by
  -- The order of commits is built along the run, beginning with nothing.
  refine run.invariant
    (fun st => P.Guarded st ∧ ∃ order skipped, P.Ordered start order skipped st) ?_ ?_
  · exact ⟨⟨by simp, by simp⟩, [], [], ⟨by simp, by simp, rfl, by simp⟩⟩
  · rintro st c st' ⟨guarded, order, skipped, ordered⟩ step
    exact ⟨guarded.step step, ordered.step guarded step⟩

/-- Once all calls are done, they have acted as if one after the other in some order. -/
theorem Reaches.linearizable [DecidableEq κ] {past : List (Transition.Step (LockState σ ι) ι)}
    (run : P.Reaches start past st) (complete : ∀ c, ∃ won, st.phase c = .done won)
    {calls : List ι} (distinct : calls.Nodup) (all : ∀ c, c ∈ calls) :
    ∃ order, order.Perm calls ∧ P.serial start order = (st.store, order.map st.won) := by
  obtain ⟨-, order, skipped, ordered⟩ := run.ordered
  -- Without holders nobody waits for one.
  have none_waits : skipped = [] := by
    refine List.eq_nil_iff_forall_not_mem.mpr fun c listed => ?_
    obtain ⟨-, -, -, holder, held, -⟩ := ordered.waiting c listed
    obtain ⟨won, done⟩ := complete holder
    rw [held] at done
    cases done
  -- The order then lists every call once.
  have nodup := ordered.nodup
  have finished := ordered.finished
  rw [none_waits, List.append_nil] at nodup finished
  refine ⟨order, (List.perm_ext_iff_of_nodup nodup distinct).mpr fun c => ?_, ordered.replay⟩
  exact iff_of_true ((finished c).mpr (complete c)) (all c)

end Protocol

end Relational
