import Mathlib.Order.WellFounded
import Sluice.Transition.Run

/-! Runs that never end, and what holds in them from some time on. -/

namespace Transition

variable {σ α β : Type} {next : σ → α → σ → Prop}

/-- A run without an end, as the states it goes through and the labels of its steps. -/
structure Endless (next : σ → α → σ → Prop) where
  state : Nat → σ
  label : Nat → α
  made : ∀ n, next (state n) (label n) (state (n + 1))

namespace Endless

variable (run : Endless next)

/-- The step that a run makes after a number of steps. -/
def step (n : Nat) : Step σ α := ⟨run.state n, run.label n, run.state (n + 1)⟩

/-- A step that is possible for good is taken at some time. -/
def WeaklyFair (ready : σ → Prop) (taken : Step σ α → Prop) : Prop :=
  ∀ N, (∀ n ≥ N, ready (run.state n)) → ∃ n ≥ N, taken (run.step n)

/-- A step that is not possible from some time on is treated fairly. -/
theorem weaklyFair_of_not {ready : σ → Prop} {taken : Step σ α → Prop} {M : Nat}
    (beyond : ∀ n ≥ M, ¬ ready (run.state n)) : run.WeaklyFair ready taken := by
  intro N always
  exact absurd (always _ (Nat.le_max_left N M)) (beyond _ (Nat.le_max_right N M))

/-- Whatever holds at one time and survives each step holds from then on. -/
theorem onward (Inv : σ → Prop) {N : Nat} (init : Inv (run.state N))
    (keep : ∀ s a s', Inv s → next s a s' → Inv s') : ∀ n ≥ N, Inv (run.state n) := by
  intro n after
  induction n, after using Nat.le_induction with
  | base => exact init
  | succ n _ ih => exact keep _ _ _ ih (run.made n)

/-- A run without an end has finite beginnings. -/
theorem beginning (n : Nat) :
    Run next (run.state 0) ((List.range n).map run.step) (run.state n) := by
  induction n with
  | zero => exact .nil
  | succ n ih =>
    rw [List.range_succ, List.map_append]
    exact ih.snoc (run.made n)

/-- What uses up a measure whenever it changes settles. -/
theorem settles (view : σ → β) (measure : σ → Nat)
    (shrinks : ∀ n, measure (run.state (n + 1)) ≤ measure (run.state n))
    (changes : ∀ n, view (run.state (n + 1)) ≠ view (run.state n) →
      measure (run.state (n + 1)) < measure (run.state n)) :
    ∃ N, ∀ n ≥ N, view (run.state n) = view (run.state N) := by
  -- Once the measure has its least value there is nothing left to use up.
  have falls : Antitone fun n => measure (run.state n) := antitone_nat_of_succ_le shrinks
  refine ⟨Function.argmin fun n => measure (run.state n), fun n after => ?_⟩
  induction n, after using Nat.le_induction with
  | base => rfl
  | succ n after ih =>
    rw [← ih]
    by_contra changed
    have used := changes n changed
    have low := falls after
    have least := Function.argmin_le (fun n => measure (run.state n)) (n + 1)
    simp only at low least
    omega

/-- A run starts where its first step does. -/
theorem first_pre {start last : σ} {past : List (Step σ α)} (run : Run next start past last) :
    past.head?.elim last Step.pre = start := by
  induction run with
  | nil => rfl
  | @snoc past _ _ _ run step ih =>
    cases past with
    | nil => exact ih
    | cons => exact ih

/-- Each step of a run ends where the next one starts. -/
theorem post_eq {start last : σ} {past : List (Step σ α)} (run : Run next start past last) {n : Nat}
    {e : Step σ α} (at_n : past[n]? = some e) :
    past[n + 1]?.elim last Step.pre = e.post ∧ next e.pre e.label e.post := by
  obtain ⟨inside, rfl⟩ := List.getElem?_eq_some_iff.mp at_n
  have split : past = past.take n ++ past[n] :: past.drop (n + 1) := by simp
  obtain ⟨-, made, rest⟩ := (split ▸ run : Run next start _ last).at_step
  refine ⟨?_, made⟩
  rw [← List.head?_drop]
  exact first_pre rest

section Extend

variable {start last : σ} {past : List (Step σ α)} {idle : α} (run : Run next start past last)
  (stay : next last idle last)

/-- A finite run that ends where it can stay goes on for ever. -/
def extend : Endless next where
  state n := past[n]?.elim last Step.pre
  label n := past[n]?.elim idle Step.label
  made n := by
    cases at_n : past[n]? with
    | none =>
      rw [List.getElem?_eq_none_iff] at at_n
      rw [List.getElem?_eq_none (Nat.le_succ_of_le at_n)]
      exact stay
    | some e =>
      rw [(post_eq run at_n).1]
      exact (post_eq run at_n).2

/-- The extension makes the steps of the run and then stays where it is. -/
theorem extend_step (n : Nat) :
    (extend run stay).step n ∈ past ∨ (extend run stay).step n = ⟨last, idle, last⟩ := by
  cases at_n : past[n]? with
  | none =>
    have after : past[n + 1]? = none :=
      List.getElem?_eq_none (Nat.le_succ_of_le (List.getElem?_eq_none_iff.mp at_n))
    exact .inr (by simp [step, extend, at_n, after])
  | some e =>
    left
    have whole : (extend run stay).step n = e := by
      simp [step, extend, at_n, (post_eq run at_n).1]
    rw [whole]
    exact List.mem_of_getElem? at_n

theorem extend_state_of_le {n : Nat} (beyond : past.length ≤ n) :
    (extend run stay).state n = last := by
  simp [extend, List.getElem?_eq_none beyond]

end Extend

end Endless

end Transition
