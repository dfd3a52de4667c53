import Mathlib.Algebra.Order.Group.Abs
import Mathlib.Algebra.Order.Group.Int
import Mathlib.Algebra.Order.Ring.Int
import Mathlib.Tactic.Positivity
import Sluice.Job.Backoff

/-! The delay before a retry, as a formula over unbounded integers. -/

namespace Sluice

/-- An exact result is the one that the machine computes. -/
theorem exact64_eq_some {n m : Int} : exact64 n = some m ↔ (-2 ^ 63 ≤ n ∧ n < 2 ^ 63) ∧ n = m := by
  simp [exact64]

/-- A machine operation whose result is in range does not wrap around. -/
theorem wrap64_of_exact {n m : Int} (result : exact64 n = some m) : wrap64 n = m := by
  obtain ⟨⟨low, high⟩, rfl⟩ := exact64_eq_some.mp result
  exact Int.bmod_eq_of_le (by omega) (by omega)

/-- Doublings that are exact are those of the machine. -/
theorem doubleDelay_of_exact {n : Nat} {delay result : Int}
    (exact : doubleDelay? n delay = some result) : doubleDelay n delay = result := by
  induction n generalizing delay with
  | zero => exact Option.some.inj exact
  | succ n ih =>
    rw [doubleDelay?] at exact
    rw [doubleDelay]
    by_cases below : delay < 3600
    · rw [if_pos below] at exact ⊢
      obtain ⟨twice, doubled, exact⟩ := Option.bind_eq_some_iff.mp exact
      rw [wrap64_of_exact doubled]
      exact ih exact
    · rw [if_neg below] at exact ⊢
      exact Option.some.inj exact

/-- A jitter that is exact is the one that is added. -/
theorem jitter_of_exact {intn : Int → Int} {delay result : Int}
    (exact : jitter? intn delay = some result) :
    (if delay / 5 > 0 then delay + (intn (2 * (delay / 5) + 1) - delay / 5) else delay) =
      result := by
  simp only [jitter?, Option.bind_eq_bind] at exact
  by_cases some_jitter : delay / 5 > 0
  · rw [if_pos some_jitter] at exact ⊢
    simp only [Option.bind_eq_some_iff, exact64_eq_some] at exact
    obtain ⟨_, ⟨-, rfl⟩, _, ⟨-, rfl⟩, _, ⟨-, rfl⟩, -, same⟩ := exact
    exact same
  · rw [if_neg some_jitter] at exact ⊢
    exact Option.some.inj exact

/-- A retry time that is computed without wrapping around is the one that the machine computes. -/
theorem nextRetryAt_of_exact {attempt backoffSeconds : Int} {intn : Int → Int} {now time : Time}
    (exact : nextRetryAt? attempt backoffSeconds intn now = some time) :
    nextRetryAt attempt backoffSeconds intn now = time := by
  simp only [nextRetryAt?, Option.bind_eq_bind, Option.bind_eq_some_iff, Option.some.injEq] at exact
  obtain ⟨doubled, doubling, delay, jittered, duration, product, rfl⟩ := exact
  simp only [nextRetryAt]
  rw [doubleDelay_of_exact doubling, jitter_of_exact jittered, wrap64_of_exact product]

/-- The delay before a retry without its jitter, over unbounded integers. -/
def retryDelay (attempt backoffSeconds : Int) : Int := min 3600 (backoffSeconds * 2 ^ attempt.toNat)

/-- The doublings are exact and come to the product once both are clamped. -/
theorem doubleDelay?_min (n : Nat) {delay : Int} (nonneg : 0 ≤ delay) :
    ∃ doubled, doubleDelay? n delay = some doubled ∧
      min doubled 3600 = min 3600 (delay * 2 ^ n) := by
  -- The induction is on the doublings that are left, so the delay varies.
  induction n generalizing delay with
  | zero => exact ⟨delay, rfl, by rw [pow_zero, mul_one, min_comm]⟩
  | succ n ih =>
    rw [doubleDelay?]
    by_cases below : delay < 3600
    · -- Below the cap a doubling is far from the end of the range.
      obtain ⟨doubled, rest, clamped⟩ := ih (show 0 ≤ delay * 2 by omega)
      refine ⟨doubled, ?_, ?_⟩
      · rw [if_pos below, exact64_eq_some.mpr ⟨by omega, rfl⟩, Option.bind_some, rest]
      · rw [clamped, pow_succ', mul_assoc]
    · -- Once the cap is reached, the product is beyond it as well.
      have more : delay ≤ delay * 2 ^ (n + 1) :=
        le_mul_of_one_le_right nonneg (one_le_pow₀ (by decide))
      exact ⟨delay, if_neg below, by omega⟩

/-- The jitter moves a delay by a fifth at most. -/
theorem jitter?_spec {intn : Int → Int} (lawful : Intn intn) {delay : Int} (nonneg : 0 ≤ delay)
    (capped : delay ≤ 3600) :
    ∃ shift, |shift| ≤ delay / 5 ∧ jitter? intn delay = some (delay + shift) := by
  by_cases some_jitter : delay / 5 > 0
  · -- The number is drawn from an interval around the jitter.
    obtain ⟨low, high⟩ := lawful (2 * (delay / 5) + 1) (by omega)
    refine ⟨intn (2 * (delay / 5) + 1) - delay / 5, abs_le.mpr ⟨by omega, by omega⟩, ?_⟩
    simp only [jitter?, if_pos some_jitter, Option.bind_eq_bind, Option.bind_eq_some_iff,
      exact64_eq_some]
    exact ⟨_, ⟨by omega, rfl⟩, _, ⟨by omega, rfl⟩, _, ⟨by omega, rfl⟩, by omega, rfl⟩
  · exact ⟨0, by simp; omega, by simp [jitter?, some_jitter]⟩

/-- A clamped delay lies between nothing and an hour. -/
theorem retryDelay_bounds (attempt : Int) {backoffSeconds : Int} (nonneg : 0 ≤ backoffSeconds) :
    0 ≤ retryDelay attempt backoffSeconds ∧ retryDelay attempt backoffSeconds ≤ 3600 := by
  have product : 0 ≤ backoffSeconds * 2 ^ attempt.toNat := by positivity
  exact ⟨le_min (by decide) product, min_le_left _ _⟩

/-- More attempts and a longer backoff do not shorten the delay. -/
theorem retryDelay_mono {attempt attempt' backoffSeconds backoffSeconds' : Int}
    (nonneg : 0 ≤ backoffSeconds) (later : attempt ≤ attempt')
    (longer : backoffSeconds ≤ backoffSeconds') :
    retryDelay attempt backoffSeconds ≤ retryDelay attempt' backoffSeconds' := by
  have powers : (2 : Int) ^ attempt.toNat ≤ 2 ^ attempt'.toNat :=
    pow_le_pow_right₀ (by decide) (by omega)
  have longer' : 0 ≤ backoffSeconds' := nonneg.trans longer
  exact min_le_min_left 3600 (by gcongr)

/-- Every operation on the way to a retry time is exact, and the jitter alone is left to chance. -/
theorem nextRetryAt?_spec (attempt : Int) {backoffSeconds : Int} {intn : Int → Int}
    (lawful : Intn intn) (nonneg : 0 ≤ backoffSeconds) (now : Time) :
    ∃ e, |e| ≤ retryDelay attempt backoffSeconds / 5 ∧
      jitter? intn (retryDelay attempt backoffSeconds) =
        some (retryDelay attempt backoffSeconds + e) ∧
      nextRetryAt? attempt backoffSeconds intn now =
        some (now + (retryDelay attempt backoffSeconds + e) * second) := by
  obtain ⟨doubled, doubling, clamped⟩ := doubleDelay?_min attempt.toNat nonneg
  obtain ⟨low, high⟩ := retryDelay_bounds attempt nonneg
  obtain ⟨e, small, jittered⟩ := jitter?_spec lawful low high
  refine ⟨e, small, jittered, ?_⟩
  have range := abs_le.mp small
  have product : exact64 ((retryDelay attempt backoffSeconds + e) * 1000000000) =
      some ((retryDelay attempt backoffSeconds + e) * 1000000000) :=
    exact64_eq_some.mpr ⟨by omega, rfl⟩
  simp only [nextRetryAt?, doubling, clamped, Option.bind_eq_bind, Option.bind_some]
  rw [← retryDelay, jittered, Option.bind_some, product, Option.bind_some, Option.some.injEq]
  simp only [second]
  lia

/-- A backoff that is not negative leads to a retry within seventy-two minutes from now. -/
theorem nextRetryAt_bounds (attempt : Int) {backoffSeconds : Int} {intn : Int → Int}
    (lawful : Intn intn) (nonneg : 0 ≤ backoffSeconds) (now : Time) :
    now ≤ nextRetryAt attempt backoffSeconds intn now ∧
      nextRetryAt attempt backoffSeconds intn now ≤ now + 4320 * second := by
  obtain ⟨e, small, -, exact⟩ := nextRetryAt?_spec attempt lawful nonneg now
  obtain ⟨low, high⟩ := retryDelay_bounds attempt nonneg
  have range := abs_le.mp small
  rw [nextRetryAt_of_exact exact]
  unfold second
  constructor
  · lia
  · lia

/-- A negative backoff is doubled without a jitter, so it leads back in time. -/
theorem nextRetryAt_one_of_neg {backoffSeconds : Int} (negative : backoffSeconds < 0)
    (fits : -2147483648 ≤ backoffSeconds) (intn : Int → Int) (now : Time) :
    nextRetryAt 1 backoffSeconds intn now = now + backoffSeconds * 2 * second := by
  -- Neither the doubling nor the number of nanoseconds leaves the range.
  have doubling : doubleDelay? 1 backoffSeconds = some (backoffSeconds * 2) := by
    rw [doubleDelay?, if_pos (by omega), exact64_eq_some.mpr ⟨by omega, rfl⟩, Option.bind_some,
      doubleDelay?]
  have jittered : jitter? intn (backoffSeconds * 2) = some (backoffSeconds * 2) :=
    if_neg (by omega)
  have product : exact64 (backoffSeconds * 2 * 1000000000) =
      some (backoffSeconds * 2 * 1000000000) := exact64_eq_some.mpr ⟨by omega, rfl⟩
  have clamped : min (backoffSeconds * 2) 3600 = backoffSeconds * 2 := by omega
  refine nextRetryAt_of_exact ?_
  simp only [nextRetryAt?, Int.toNat_one, doubling, clamped, jittered, product,
    Option.bind_eq_bind, Option.bind_some, Option.some.injEq, second]
  lia

/-- The draw in the middle of the range, which leaves the delay as it is. -/
def middle (n : Int) : Int := n / 2

/-- The middle of a range is a number that can be drawn. -/
theorem middle_lawful : Intn middle := by
  intro n positive
  unfold middle
  omega

/-- Without a jitter the next attempt is due after the clamped delay. -/
theorem nextRetryAt_middle (attempt : Int) {backoffSeconds : Int} (nonneg : 0 ≤ backoffSeconds)
    (now : Time) :
    nextRetryAt attempt backoffSeconds middle now =
      now + retryDelay attempt backoffSeconds * second := by
  obtain ⟨e, -, jittered, exact⟩ := nextRetryAt?_spec attempt middle_lawful nonneg now
  -- The number drawn from an interval around the jitter is the jitter itself.
  have centred := jitter_of_exact jittered
  have still : e = 0 := by
    unfold middle at centred
    split at centred <;> omega
  rw [nextRetryAt_of_exact exact, still, add_zero]

/--
The delay before a retry is the backoff doubled once for each attempt, up to an hour, give or take a
fifth.

No operation on the way there wraps around. Without the jitter the delay grows with the attempt and
with the backoff.
-/
theorem nextRetryAt_closed_form (attempt : Int) {backoffSeconds : Int}
    (nonneg : 0 ≤ backoffSeconds) {intn : Int → Int} (lawful : Intn intn) (now : Time) :
    (∃ e, |e| ≤ min 3600 (backoffSeconds * 2 ^ attempt.toNat) / 5 ∧
      nextRetryAt attempt backoffSeconds intn now =
        now + (min 3600 (backoffSeconds * 2 ^ attempt.toNat) + e) * second ∧
      nextRetryAt? attempt backoffSeconds intn now =
        some (nextRetryAt attempt backoffSeconds intn now)) ∧
    now ≤ nextRetryAt attempt backoffSeconds intn now ∧
    nextRetryAt attempt backoffSeconds intn now ≤ now + 4320 * second ∧
    nextRetryAt attempt backoffSeconds middle now =
      now + min 3600 (backoffSeconds * 2 ^ attempt.toNat) * second ∧
    ∀ attempt' backoffSeconds', attempt ≤ attempt' → backoffSeconds ≤ backoffSeconds' →
      nextRetryAt attempt backoffSeconds middle now ≤
        nextRetryAt attempt' backoffSeconds' middle now := by
  obtain ⟨e, small, -, exact⟩ := nextRetryAt?_spec attempt lawful nonneg now
  have computed := nextRetryAt_of_exact exact
  obtain ⟨soonest, latest⟩ := nextRetryAt_bounds attempt lawful nonneg now
  refine ⟨⟨e, small, computed, by rw [exact, computed]⟩, soonest, latest,
    nextRetryAt_middle attempt nonneg now, ?_⟩
  intro attempt' backoffSeconds' later longer
  rw [nextRetryAt_middle attempt nonneg, nextRetryAt_middle attempt' (nonneg.trans longer)]
  have grows := retryDelay_mono nonneg later longer
  unfold second
  lia

theorem nextRetryAt_closed_form_fourth :
    ∃ e, |e| ≤ 48 ∧ nextRetryAt 3 30 (fun _ => 0) 0 = (240 + e) * second ∧
      nextRetryAt? 3 30 (fun _ => 0) 0 = some (nextRetryAt 3 30 (fun _ => 0) 0) := by
  have lawful : Intn fun _ => 0 := fun n positive => ⟨Int.le_refl 0, positive⟩
  have nonneg : (0 : Int) ≤ 30 := by decide
  obtain ⟨e, small, computed, exact⟩ := (nextRetryAt_closed_form 3 nonneg lawful 0).1
  exact ⟨e, small, computed.trans (zero_add _), exact⟩

end Sluice
