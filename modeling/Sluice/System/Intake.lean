import Sluice.Api.Handler
import Sluice.Storage.Op

/-! Submissions under one idempotency key, interleaved with everything else that goes on. -/

namespace Sluice

open Transition

/-- The stored state, the submissions with their draws, and the identifiers drawn so far. -/
structure Intake where
  api : ApiState
  calls : List (Draw × Submission)
  drawn : List UUID

/-- The system before the first submission. -/
def Intake.opened (api : ApiState) : Intake := ⟨api, [], []⟩

/-- What `uuid.New` may draw next. -/
def Intake.Fresh (id : UUID) (s : Intake) : Prop :=
  id ∉ s.drawn ∧ s.api.db.jobs.find? id = none

/-- The identifiers that a call of another process brings along for new jobs. -/
def Op.draws : Op → List UUID
  | insertJob j => [j.id]
  | _ => []

/-- What happens next. -/
inductive IntakeAction where
  -- A submission arrives and is checked.
  | begin (body : Option SubmitJobRequest) (d : Draw)
  -- A submission makes its next statement.
  | advance (i : Nat)
  -- A worker, a scheduler, or some other process makes a call.
  | other (op : Op)

/--
One step: each statement of a submission is one of its own.

All submissions are of one tenant and under one key, which no other insertion uses.
-/
inductive IntakeStep (t : Tenant) (key : String) : Intake → IntakeAction → Intake → Prop where
  | begin {s : Intake} {body : Option SubmitJobRequest} {d : Draw}
      (keyed : ∀ req, body = some req → req.idempotencyKey = some key) (fresh : s.Fresh d.id) :
      IntakeStep t key s (.begin body d)
        { api := (Submission.start t body d s.api).2
          calls := s.calls ++ [(d, (Submission.start t body d s.api).1)]
          drawn := d.id :: s.drawn }
  | advance {s : Intake} {i : Nat} {d : Draw} {submission : Submission}
      (called : s.calls[i]? = some (d, submission)) :
      IntakeStep t key s (.advance i)
        { s with
          api := (submission.step t d s.api).2
          calls := s.calls.set i (d, (submission.step t d s.api).1) }
  -- What others do to the Redis lists and the counters does not matter here.
  | other {s : Intake} {op : Op} {redis : Redis} {counters : Counters}
      (unkeyed : ∀ j, op = .insertJob j → j.idempotency ≠ some (t.id, key))
      (fresh : ∀ id ∈ op.draws, s.Fresh id) :
      IntakeStep t key s (.other op)
        { s with
          api := { s.api with db := op.apply s.api.db, redis, counters }
          drawn := op.draws ++ s.drawn }

/-- A submission has got its answer. -/
def Intake.Answered (s : Intake) (i : Nat) (response : Response) : Prop :=
  ∃ d, s.calls[i]? = some (d, .answered response)

/-- Whether a step stores a job that was not there. -/
def stores (id : UUID) (e : Step Intake IntakeAction) : Bool :=
  (e.pre.api.db.jobs.find? id).isNone && (e.post.api.db.jobs.find? id).isSome

/-- Whether a step is the queueing of a job by the submission that has stored it. -/
def pushes (id : UUID) (e : Step Intake IntakeAction) : Bool :=
  match e.label with
  | .advance i =>
    match e.pre.calls[i]? with
    | some (_, .enqueueing j) => j.id == id
    | _ => false
  | _ => false

/-- A step is the cancellation that deletes a job. -/
def Cancels (id : UUID) (e : Step Intake IntakeAction) : Prop :=
  (∃ tenantID, e.label = .other (.cancelJob id tenantID)) ∧
    (e.pre.api.db.jobs.find? id).isSome = true ∧ e.post.api.db.jobs.find? id = none

/-- One job was cancelled before the other was stored. -/
def Superseded (past : List (Step Intake IntakeAction)) (id id' : UUID) : Prop :=
  ∃ earlier e later, past = earlier ++ e :: later ∧ Cancels id e ∧
    ∃ e' ∈ later, stores id' e' = true

end Sluice
