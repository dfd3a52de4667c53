import Sluice.Api.Handler
import Sluice.Worker.Refresh

/-! No reload is lost, although both channels drop what they have no place for. -/

namespace Sluice

open Relational Transition

variable {past earlier later : List (Step Refresh RefreshAction)} {e : Step Refresh RefreshAction}
  {s s' : Refresh} {a : RefreshAction}

/-- A query that was answered in one of the steps. -/
def Queried (later : List (Step Refresh RefreshAction)) (answer : List Tenant) : Prop :=
  ∃ x ∈ later, x.label = .query answer ∧ getTenants.Answers x.pre.tenants.rows answer

/-- A query stays in the history. -/
theorem Queried.snoc {answer : List Tenant} (queried : Queried later answer)
    (x : Step Refresh RefreshAction) : Queried (later ++ [x]) answer := by
  obtain ⟨y, listed, made⟩ := queried
  exact ⟨y, List.mem_append_left _ listed, made⟩

/-- What the worker is about to know, or knows already, was queried in one of the steps. -/
inductive Fresh (later : List (Step Refresh RefreshAction)) (s : Refresh) : Prop where
  | answered {answer : List Tenant} (queried : Queried later answer)
      (loader : s.loader = .answered answer)
  | stored {answer : List Tenant} (queried : Queried later answer)
      (weights : s.weights = loadTenants answer) (idle : ∀ other, s.loader ≠ .answered other)

/-- A step that does nothing to the loader and its weights leaves them fresh. -/
theorem Fresh.frame (fresh : Fresh later s) (x : Step Refresh RefreshAction)
    (loader : s'.loader = s.loader) (weights : s'.weights = s.weights) :
    Fresh (later ++ [x]) s' := by
  cases fresh with
  | answered queried answered => exact .answered (queried.snoc x) (loader.trans answered)
  | stored queried stored idle =>
    exact .stored (queried.snoc x) (weights.trans stored) fun other => loader ▸ idle other

/-- A reload on its way moves on towards the query, and what is fresh is not lost again. -/
theorem Fresh.step (step : Refresh.Next s a s') (answers : a ≠ .queryFails)
    (held : s.pending = true ∨ Fresh later s) :
    s'.pending = true ∨ Fresh (later ++ [⟨s, a, s'⟩]) s' := by
  obtain ⟨made, answer⟩ := step
  cases a with
  | edit tenants =>
    cases made
    exact held.imp id fun fresh => fresh.frame _ rfl rfl
  | signal =>
    cases made
    exact .inl rfl
  | take =>
    simp only [Refresh.step?, Option.ite_none_right_eq_some, Option.some.injEq] at made
    obtain ⟨-, rfl⟩ := made
    exact .inl (by simp [Refresh.pending])
  | reload =>
    simp only [Refresh.step?, Option.ite_none_right_eq_some, Option.some.injEq] at made
    obtain ⟨-, rfl⟩ := made
    exact .inl (by simp [Refresh.pending])
  | tick | wake =>
    simp only [Refresh.step?, Option.ite_none_right_eq_some, Option.some.injEq] at made
    obtain ⟨-, rfl⟩ := made
    exact .inl (by simp [Refresh.pending])
  | query rows =>
    simp only [Refresh.step?, Option.ite_none_right_eq_some, Option.some.injEq] at made
    obtain ⟨-, rfl⟩ := made
    exact .inr (.answered ⟨_, List.mem_append_right _ List.mem_cons_self, rfl, answer rows rfl⟩ rfl)
  | queryFails => exact absurd rfl answers
  | store =>
    simp only [Refresh.step?] at made
    split at made
    · rename_i rows loader
      cases made
      rcases held with pending | fresh
      · -- The loader is past its query, so the reload waits in a channel.
        exact .inl (by simpa [Refresh.pending, loader] using pending)
      · cases fresh with
        | answered queried answered =>
          cases loader.symm.trans answered
          exact .inr (.stored (queried.snoc _) rfl fun other => by simp)
        | stored _ _ idle => exact absurd loader (idle rows)
    · cases made
  | stop =>
    simp only [Refresh.step?, Option.ite_none_right_eq_some, Option.some.injEq] at made
    obtain ⟨waiting, rfl⟩ := made
    rcases held with pending | fresh
    · exact .inl (by simpa [Refresh.pending, waiting] using pending)
    · cases fresh with
      | answered _ answered => cases waiting.symm.trans answered
      | stored queried weights => exact .inr (.stored (queried.snoc _) weights fun other => by simp)

/--
A signal to reload is never lost: once both channels are empty and both the loop that forwards
signals and the goroutine wait again, the worker's weights come from a query that was made after the
signal, if none of these has failed.
-/
theorem reload_not_lost (run : Refresh.Reaches (earlier ++ e :: later) s)
    (signalled : e.label = .signal) (answered : ∀ x ∈ later, x.label ≠ .queryFails)
    (drained : s.sighup = false ∧ s.reload = false) (forwarded : s.forwarding = false)
    (waiting : s.loader = .waiting) :
    ∃ answer, Queried later answer ∧ s.weights = loadTenants answer := by
  obtain ⟨tenants, run⟩ := run
  have since : s.pending = true ∨ Fresh later s := by
    revert answered
    refine run.period (fun later s => (∀ x ∈ later, x.label ≠ .queryFails) →
      s.pending = true ∨ Fresh later s) ?_ ?_
    · rintro ⟨made, -⟩ -
      rw [signalled, Refresh.step?, Option.some.injEq] at made
      exact .inl (by rw [← made]; rfl)
    · intro later s a s' _ held step answered
      simp only [List.forall_mem_append, List.forall_mem_singleton] at answered
      exact Fresh.step step answered.2 (held answered.1)
  rcases since with pending | fresh
  · simp [Refresh.pending, drained, forwarded, waiting] at pending
  · cases fresh with
    | answered _ answered => cases waiting.symm.trans answered
    | stored queried weights => exact ⟨_, queried, weights⟩

/-- A worker that knows of its tenants is told twice to load them again. -/
def reloadedTwice : List RefreshAction :=
  [.query [devTenant], .store, .signal, .take, .signal, .reload, .take, .wake, .reload,
    .query [devTenant], .store, .wake, .query [devTenant], .store]

theorem reload_not_lost_twice :
    ∃ answer, Queried ((refreshTrace ApiState.initial.tenants reloadedTwice).drop 5) answer ∧
      (afterRefresh ApiState.initial.tenants reloadedTwice).weights = loadTenants answer := by
  have run := reaches_refreshTrace ApiState.initial.tenants reloadedTwice (by decide +kernel)
  have split : refreshTrace ApiState.initial.tenants reloadedTwice =
      (refreshTrace ApiState.initial.tenants reloadedTwice).take 4 ++
        (refreshTrace ApiState.initial.tenants reloadedTwice).get ⟨4, by decide⟩ ::
          (refreshTrace ApiState.initial.tenants reloadedTwice).drop 5 := rfl
  rw [split] at run
  refine reload_not_lost run rfl (fun x listed failed => ?_) (by decide +kernel) (by decide +kernel)
    (by decide +kernel)
  have made := (mem_trace (List.mem_of_mem_drop listed)).1
  rw [failed] at made
  simp [reloadedTwice] at made

end Sluice
