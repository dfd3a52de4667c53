import Sluice.Transition.Run

/-! What a number of steps bring about, whichever steps they are. -/

namespace Transition

variable {σ α : Type} {next : σ → α → σ → Prop} {P : σ → Prop}

/--
A fact holds after a number of steps, however they go.

On the way there is always a step to make, so the fact does not hold for want of runs.
-/
def After (next : σ → α → σ → Prop) (P : σ → Prop) : Nat → σ → Prop
  | 0, s => P s
  | n + 1, s => (∃ a s', next s a s') ∧ ∀ a s', next s a s' → After next P n s'

/-- A fact that stays, and that every step either brings about or brings nearer, comes to hold. -/
theorem After.of_measure (Inv : σ → Prop) (distance : σ → Nat)
    (live : ∀ s, Inv s → ∃ a s', next s a s')
    (keep : ∀ s a s', Inv s → next s a s' → Inv s')
    (stable : ∀ s a s', Inv s → P s → next s a s' → P s')
    (nearer : ∀ s a s', Inv s → ¬ P s → next s a s' → P s' ∨ distance s' < distance s)
    {n : Nat} {s : σ} (inv : Inv s) (near : P s ∨ distance s < n) : After next P n s := by
  -- Each step takes one off both the number of steps and the distance left.
  induction n generalizing s with
  | zero => exact near.resolve_right (Nat.not_lt_zero _)
  | succ n ih =>
    refine ⟨live s inv, fun a s' step => ih (keep s a s' inv step) ?_⟩
    by_cases holds : P s
    · exact .inl (stable s a s' inv holds step)
    · rcases nearer s a s' inv holds step with reached | less
      · exact .inl reached
      · have bound := near.resolve_left holds
        exact .inr (by omega)

/-- A fact that some step can always keep away does not come to hold. -/
theorem not_after (Bad : σ → Prop) (away : ∀ s, Bad s → ¬ P s)
    (stay : ∀ s, Bad s → ∃ a s', next s a s' ∧ Bad s') (n : Nat) {s : σ} (bad : Bad s) :
    ¬ After next P n s := by
  -- The steps that keep the fact away make up a run as long as one likes.
  induction n generalizing s with
  | zero => exact away s bad
  | succ n ih =>
    rintro ⟨-, later⟩
    obtain ⟨a, s', step, bad'⟩ := stay s bad
    exact ih bad' (later a s' step)

end Transition
