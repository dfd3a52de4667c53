import Sluice.Api.Handler
import Sluice.Proofs.Queue
import Sluice.Proofs.System.Crew
import Sluice.Proofs.System.History
import Sluice.Proofs.System.Provenance

/-! What tenants read back of the jobs that they have submitted. -/

namespace Sluice

open Relational Transition

variable {env : Nat → Env} {earlier later : List (Step World Action)} {w : World} {a : Action}
  {e : Step World Action} {t : Tenant} {req : SubmitJobRequest} {id : UUID} {clock : Time}
  {thread : Nat}

/-- A step that cancelled the job. -/
def cancelsJob (k : UUID) (e : Step World Action) : Bool :=
  match e.label with
  | .cancelJob jobID tenantID => jobID == k && (cancelJob jobID tenantID e.pre.db).1.isOk
  | _ => false

/-- A step takes a stored job away exactly if it cancels it. -/
theorem World.gone_iff {k : UUID} {row : Job} (found : w.db.jobs.find? k = some row) :
    (w.step env a).db.jobs.find? k = none ↔ cancelsJob k ⟨w, a, w.step env a⟩ = true := by
  constructor
  · intro gone
    obtain ⟨tenantID, rfl, success⟩ := World.row_gone found gone
    simp [cancelsJob, success]
  · intro cancelled
    cases a with
    | cancelJob jobID tenantID =>
      simp only [cancelsJob, Bool.and_eq_true, beq_iff_eq] at cancelled
      obtain ⟨rfl, success⟩ := cancelled
      rw [World.step_db_some (rfl : Action.op env w (.cancelJob jobID tenantID) = _), Op.apply]
      rcases cancelJob_spec jobID tenantID w.db with ⟨-, -, -, done, gone⟩ | ⟨-, done⟩
      · rw [done]
        exact gone
      · rw [done] at success
        cases success
    | _ => cases cancelled

/-- What is stored of a job that was ordered, some steps after it. -/
structure Ordered (j : Job) (later : List (Step World Action)) (w : World) : Prop where
  drawn : j.id ∈ w.drawn
  kept : later.any (cancelsJob j.id) = false →
    ∃ row, w.db.jobs.find? j.id = some row ∧ row.SameOrder j
  gone : later.any (cancelsJob j.id) = true → w.db.jobs.find? j.id = none

/-- Every step keeps to what was ordered. -/
theorem Ordered.step {j : Job} (ordered : Ordered j later w) (enabled : a.Enabled w) :
    Ordered j (later ++ [⟨w, a, w.step env a⟩]) (w.step env a) := by
  refine ⟨List.mem_append_right _ ordered.drawn, ?_, ?_⟩
  · intro spared
    rw [List.any_append, Bool.or_eq_false_iff] at spared
    obtain ⟨row, found, same⟩ := ordered.kept spared.1
    cases after : (w.step env a).db.jobs.find? j.id with
    | none =>
      have cancelled := (World.gone_iff found).mp after
      simp [cancelled] at spared
    | some new => exact ⟨new, rfl, (World.sameOrder_step found after).trans same⟩
  · intro cancelled
    cases before : later.any (cancelsJob j.id) with
    | true =>
      -- The identifier is not drawn a second time.
      have absent := ordered.gone before
      cases after : (w.step env a).db.jobs.find? j.id with
      | none => rfl
      | some row => exact absurd ordered.drawn (World.fresh_row enabled absent after).2
    | false =>
      obtain ⟨row, found, -⟩ := ordered.kept before
      refine (World.gone_iff found).mpr ?_
      simpa [List.any_append, before] using cancelled

/-- An accepted insertion is an order, for what the columns keep of the job. -/
theorem Ordered.of_insertion {j : Job} (inserts : a.op env w = some (.insertJob j))
    (accepted : (insertJob j w.db).1.isOk = true) : Ordered j.inserted [] (w.step env a) := by
  refine ⟨List.mem_append_left _ ?_, fun _ => ?_, fun cancelled => (nomatch cancelled)⟩
  · -- Submissions and firings draw the identifier of the job.
    cases Action.makes inserts with
    | submit => exact List.mem_singleton_self _
    | fire head fired =>
      obtain ⟨_, template, -, rfl, -⟩ := fireSchedule_inv fired
      exact List.mem_singleton_self _
  · rw [World.step_db_some inserts]
    exact ⟨_, find?_of_insertJob accepted, .refl _⟩

/-- It is kept to in all that follows. -/
theorem Ordered.of_run {j : Job} (run : Reaches env (earlier ++ e :: later) w)
    (inserts : e.label.op env e.pre = some (.insertJob j))
    (accepted : (insertJob j e.pre.db).1.isOk = true) : Ordered j.inserted later w := by
  obtain ⟨start, run⟩ := run
  refine run.period (Ordered j.inserted) ?_ ?_
  · rintro ⟨-, made⟩
    rw [made]
    exact .of_insertion inserts accepted
  · rintro later w a w' - ordered ⟨enabled, rfl⟩
    exact ordered.step enabled

/-- A job was inserted by some step of a run with workers. -/
def Inserted (env : Nat → Env) (past : List (Step Crew CrewAction)) (j : Job) : Prop :=
  ∃ e ∈ past, Crew.op env e = some (.insertJob j) ∧
    (insertJob j e.pre.world.db).1.isOk = true

/-- What is stored under the identifier of an inserted job is that job. -/
theorem Inserted.sameOrder {past : List (Step Crew CrewAction)} {s : Crew} {j row : Job}
    (inserted : Inserted env past j) (run : Crew.Reaches env past s)
    (stored : s.world.db.jobs.find? j.id = some row) : row.SameOrder j.inserted := by
  obtain ⟨e, listed, called, accepted⟩ := inserted
  obtain ⟨earlier, later, rfl⟩ := List.append_of_mem listed
  obtain ⟨b, action, made⟩ := Option.bind_eq_some_iff.mp called
  have step : Crew.worldStep e = some ⟨e.pre.world, b, e.post.world⟩ := by
    simp [Crew.worldStep, Step.project, action]
  have reached := run.world
  rw [List.filterMap_append, List.filterMap_cons_some step] at reached
  have ordered := Ordered.of_run reached made accepted
  -- A job that is stored was not cancelled.
  cases cancelled : (later.filterMap Crew.worldStep).any (cancelsJob j.id) with
  | true => exact absurd (stored.symm.trans (ordered.gone cancelled)) (Option.some_ne_none row)
  | false =>
    obtain ⟨row', found, same⟩ := ordered.kept cancelled
    rwa [Option.some.inj (stored.symm.trans found)]

/-- The API over the stored state. -/
def World.api (w : World) : ApiState := ⟨w.db, .empty, w.redis, fun _ => none⟩

end Sluice
