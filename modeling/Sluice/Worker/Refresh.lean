import Sluice.Transition.Run
import Sluice.Worker.Loop

/-! How a worker comes to know of its tenants again: on a ticker, and when it is told to. -/

namespace Sluice

open Relational Transition

/-- What the goroutine that loads the tenants is doing. -/
inductive Loader where
  | waiting
  -- It has been woken, and is about to make the query.
  | querying
  | answered (answer : List Tenant)
  | stopped
  deriving DecidableEq

/-- A worker's view of the tenants, and the two channels by which it is told to refresh it. -/
structure Refresh where
  tenants : Tenants
  -- Whether the one place of `sighupCh` is taken.
  sighup : Bool
  -- Whether a signal has been taken out of it and `Reload` not been called yet.
  forwarding : Bool
  -- Whether the one place of the worker's `reload` channel is taken.
  reload : Bool
  loader : Loader
  weights : List TenantWeight

/-- A worker about to load its tenants for the first time. -/
def Refresh.start (tenants : Tenants) : Refresh where
  tenants := tenants
  sighup := false
  forwarding := false
  reload := false
  loader := .querying
  weights := []

/-- One step of the operator, of a channel, or of the goroutine that loads the tenants. -/
inductive RefreshAction where
  | edit (tenants : Tenants)
  -- The process gets the signal.
  | signal
  -- The loop over `sighupCh` takes a signal.
  | take
  | reload
  -- The goroutine is woken by its ticker, or by the `reload` channel.
  | tick
  | wake
  | query (answer : List Tenant)
  | queryFails
  | store
  -- The context is done.
  | stop

/-- What a step leads to, if it is possible. -/
def Refresh.step? (s : Refresh) : RefreshAction → Option Refresh
  | .edit tenants => some { s with tenants }
  -- A signal that finds the place taken is dropped.
  | .signal => some { s with sighup := true }
  | .take => if s.sighup && !s.forwarding then some { s with sighup := false, forwarding := true }
    else none
  -- `Reload` sends nothing if the place is taken.
  | .reload => if s.forwarding then some { s with forwarding := false, reload := true } else none
  | .tick => if s.loader = .waiting then some { s with loader := .querying } else none
  | .wake =>
    if s.loader = .waiting && s.reload then some { s with loader := .querying, reload := false }
    else none
  | .query answer =>
    if s.loader = .querying then some { s with loader := .answered answer } else none
  -- An error is only logged, and the worker keeps what it knows.
  | .queryFails => if s.loader = .querying then some { s with loader := .waiting } else none
  | .store =>
    match s.loader with
    | .answered answer => some { s with loader := .waiting, weights := loadTenants answer }
    | _ => none
  | .stop => if s.loader = .waiting then some { s with loader := .stopped } else none

/-- One step, with the query answered from the table as it is. -/
def Refresh.Next (s : Refresh) (a : RefreshAction) (s' : Refresh) : Prop :=
  s.step? a = some s' ∧
    ∀ answer, a = .query answer → getTenants.Answers s.tenants.rows answer

/-- The runs of a worker that starts with some tenants. -/
def Refresh.Reaches (past : List (Step Refresh RefreshAction)) (s : Refresh) : Prop :=
  ∃ tenants, Run Refresh.Next (.start tenants) past s

/-- Whether a reload is on its way to the goroutine, up to the query. -/
def Refresh.pending (s : Refresh) : Bool :=
  s.sighup || s.forwarding || s.reload || s.loader == .querying

/-- The steps of a worker on a list of actions. -/
def refreshTrace (tenants : Tenants) (actions : List RefreshAction) :
    List (Step Refresh RefreshAction) :=
  trace (fun s a => (s.step? a).getD s) (.start tenants) actions

/-- What the worker knows after a list of actions. -/
def afterRefresh (tenants : Tenants) (actions : List RefreshAction) : Refresh :=
  actions.foldl (fun s a => (s.step? a).getD s) (.start tenants)

/-- Whether a step can be made, with the query answered in storage order. -/
def RefreshAction.check (s : Refresh) (a : RefreshAction) : Bool :=
  (s.step? a).isSome &&
    match a with
    | query answer => answer == getTenants.run s.tenants.rows
    | _ => true

/-- Carrying out steps that pass their checks is a run. -/
theorem reaches_refreshTrace (tenants : Tenants) (actions : List RefreshAction)
    (checked : (refreshTrace tenants actions).all (fun e => e.label.check e.pre) = true) :
    Refresh.Reaches (refreshTrace tenants actions) (afterRefresh tenants actions) := by
  refine ⟨tenants, run_trace fun e listed => ?_⟩
  obtain ⟨possible, answered⟩ := Bool.and_eq_true_iff.mp (List.all_eq_true.mp checked e listed)
  obtain ⟨s', made⟩ := Option.isSome_iff_exists.mp possible
  refine ⟨by rw [(mem_trace listed).2, made]; rfl, fun answer queried => ?_⟩
  rw [queried] at answered
  rw [eq_of_beq answered]
  exact getTenants.run_answers e.pre.tenants.rows (fun _ _ => .inl rfl) fun _ _ _ _ _ => rfl

end Sluice
