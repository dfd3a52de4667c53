import Sluice.Proofs.Storage.Rows
import Sluice.Proofs.Submissions
import Sluice.System.Intake

/-! What submissions under one idempotency key may answer, however they are interleaved. -/

namespace Sluice

open Relational Transition

variable {t : Tenant} {key : String} {s s' : Intake} {a : IntakeAction}
  {past : List (Step Intake IntakeAction)}

/-- The job that a submission answers with, or is about to. -/
def Submission.carries : Submission → Option Job
  | enqueueing j | answered ⟨_, .job j⟩ => some j
  | _ => none

/-- What the next statement of a submission can do. -/
inductive Advance (t : Tenant) (s : ApiState) : Submission → Submission → ApiState → Prop where
  -- The insertion stores the job, which is then queued if it is to run at once.
  | stored {req : SubmitJobRequest} {j : Job} {jobs : Jobs} {next : Submission}
      (inserted : s.db.jobs.insert? j.inserted = some jobs)
      (becomes : next = .enqueueing j ∨ next = .answered ⟨201, .job j⟩) :
      Advance t s (.inserting req j) next { s with db := { s.db with jobs } }
  | clashed {req : SubmitJobRequest} {j : Job} {key : String}
      (keyed : req.idempotencyKey = some key) : Advance t s (.inserting req j) (.fetching key) s
  | read {key : String} {j : Job} (stored : j ∈ s.db.jobs.rows)
      (keyed : j.idempotency = some (t.id, key)) :
      Advance t s (.fetching key) (.answered ⟨200, .job j⟩) s
  | pushed {j : Job} {redis : Redis} :
      Advance t s (.enqueueing j) (.answered ⟨201, .job j⟩) { s with redis }
  | refused {submission : Submission} {status : Nat} {message : String}
      (empty : submission.carries = none) :
      Advance t s submission (.answered (writeError status message)) s
  | rest {response : Response} : Advance t s (.answered response) (.answered response) s

/-- The statements of a submission do what is listed. -/
theorem advance_step (d : Draw) (s : ApiState) (submission : Submission) :
    Advance t s submission (submission.step t d s).1 (submission.step t d s).2 := by
  cases submission with
  | inserting req j =>
    rcases step_inserting t d s req j with
      ⟨jobs, inserted, -, done⟩ | ⟨key, keyed, done⟩ | ⟨status, message, done⟩
    · -- Only a job that is due at once is handed to the queue.
      rw [done]
      refine .stored inserted ?_
      split
      · exact .inl rfl
      · exact .inr rfl
    · rw [done]
      exact .clashed keyed
    · rw [done]
      exact .refused rfl
  | fetching key =>
    rcases step_fetching t d s key with ⟨existing, stored, keyed, done⟩ | ⟨status, message, done⟩
    · rw [done]
      exact .read stored keyed
    · rw [done]
      exact .refused rfl
  | enqueueing j =>
    -- A queue that cannot be reached does not change the answer.
    simp only [Submission.step, ApiState.enqueue]
    split
    · exact .pushed
    · exact .pushed
  | answered response => exact .rest

/-- An entry of an extended list is an old one or the last. -/
theorem getElem?_snoc {α : Type} {l : List α} {x y : α} {i : Nat}
    (found : (l ++ [x])[i]? = some y) : l[i]? = some y ∨ i = l.length ∧ y = x := by
  rw [List.getElem?_append] at found
  split at found
  · exact .inl found
  · rename_i beyond
    rw [List.getElem?_singleton] at found
    split at found
    · exact .inr ⟨by omega, (Option.some.inj found).symm⟩
    · cases found

/-- Where the submissions after a step come from. -/
theorem IntakeStep.call_cases (step : IntakeStep t key s a s') {k : Nat} {d : Draw}
    {submission : Submission} (called : s'.calls[k]? = some (d, submission)) :
    (s.calls[k]? = some (d, submission) ∧ a ≠ .advance k) ∨
    (∃ before, a = .advance k ∧ s.calls[k]? = some (d, before) ∧
      Advance t s.api before submission s'.api) ∨
    (s.Fresh d.id ∧ d.id ∈ s'.drawn ∧ k = s.calls.length ∧ (∃ body, a = .begin body d) ∧
      ((∃ status message, submission = .answered (writeError status message)) ∨
        ∃ req, req.idempotencyKey = some key ∧
          submission = .inserting req (submittedJob t.id req d.id d.now))) := by
  cases step with
  | @begin body d' keyed fresh =>
    rcases getElem?_snoc called with old | ⟨last, same⟩
    · exact .inl ⟨old, nofun⟩
    · cases same
      obtain ⟨counters, -, outcome⟩ := start_spec t d s.api body
      refine .inr (.inr ⟨fresh, List.mem_cons_self, last, ⟨body, rfl⟩, outcome.imp_right ?_⟩)
      rintro ⟨req, given, accepted⟩
      exact ⟨req, keyed req given, accepted⟩
  | @advance i d' before found =>
    rw [List.getElem?_set] at called
    split at called
    · -- The submission that moves on.
      rename_i own
      subst own
      split at called
      · cases called
        exact .inr (.inl ⟨before, rfl, found, advance_step d s.api before⟩)
      · cases called
    · rename_i differs
      exact .inl ⟨called, fun same => differs (by cases same; rfl)⟩
  | other => exact .inl ⟨called, nofun⟩

/-- What a step can do to the row of a job. -/
inductive RowEffect (t : Tenant) (key : String) (s : Intake) (k : UUID) :
    IntakeAction → Option Job → Option Job → Prop where
  | keep {a : IntakeAction} {row : Option Job} : RowEffect t key s k a row row
  -- The unique constraint lets the insertion through only if no row has the same entry.
  | store {i : Nat} {d : Draw} {req : SubmitJobRequest} {j : Job}
      (called : s.calls[i]? = some (d, .inserting req j)) (named : j.id = k)
      (alone : ∀ row ∈ s.api.db.jobs.rows, ∀ u, j.idempotency = some u → row.idempotency ≠ some u) :
      RowEffect t key s k (.advance i) none (some j.inserted)
  | other {op : Op} {row row' : Option Job} (step : RowStep k op row row')
      (unkeyed : ∀ j, op = .insertJob j → j.idempotency ≠ some (t.id, key))
      (fresh : ∀ id ∈ op.draws, s.Fresh id) : RowEffect t key s k (.other op) row row'

/-- Every step changes the row of each job in one of the listed ways. -/
theorem IntakeStep.row_effect (step : IntakeStep t key s a s') (k : UUID) :
    RowEffect t key s k a (s.api.db.jobs.find? k) (s'.api.db.jobs.find? k) := by
  cases step with
  | @begin body d keyed fresh =>
    -- The checks of a submission touch the rate limit's counters at most.
    obtain ⟨counters, counted, -⟩ := start_spec t d s.api body
    simp only [counted]
    exact .keep
  | @advance i d before found =>
    have moved := advance_step (t := t) d s.api before
    generalize (before.step t d s.api).1 = next at moved
    generalize after : (before.step t d s.api).2 = api at moved ⊢
    cases moved with
    | @stored req j jobs next inserted =>
      rw [Table.find?_insert inserted]
      split
      · rename_i named
        have free : s.api.db.jobs.find? j.inserted.id = none := Table.find?_of_insert inserted
        rw [← named, free]
        refine .store found rfl fun row stored u entry clash => ?_
        -- A clash would be one between two rows of the new table.
        obtain ⟨rows, distinct⟩ := Table.insert?_inv inserted
        have both : row ∈ jobs.rows ∧ j.inserted ∈ jobs.rows := by simp [rows, stored]
        exact distinct row stored (by rw [Table.eq_of_index both.1 both.2 clash entry])
      · exact .keep
    | clashed | read | pushed | refused | rest => exact .keep
  | other unkeyed fresh => exact .other (apply_row _ _ k) unkeyed fresh

/-- What a submission knows of its job by the statement that it has come to. -/
def Submission.Proper (t : Tenant) (key : String) (db : Db) (d : Draw) : Submission → Prop
  | inserting req j =>
    j.id = d.id ∧ j.idempotency = some (t.id, key) ∧ req.idempotencyKey = some key ∧
      db.jobs.find? d.id = none
  | fetching key' => key' = key
  | enqueueing j => j.id = d.id ∧ j.idempotency = some (t.id, key)
  | answered response =>
    ∀ j, response.body = .job j →
      j.idempotency = some (t.id, key) ∧ (response.status = 201 → j.id = d.id)

/-- The submissions have identifiers of their own, and each is in order. -/
structure Intake.Sound (t : Tenant) (key : String) (s : Intake) : Prop where
  known : ∀ {i : Nat} {d : Draw} {submission : Submission},
    s.calls[i]? = some (d, submission) → d.id ∈ s.drawn
  apart : ∀ {i i' : Nat} {d d' : Draw} {submission submission' : Submission},
    s.calls[i]? = some (d, submission) → s.calls[i']? = some (d', submission') →
      d.id = d'.id → i = i'
  proper : ∀ {i : Nat} {d : Draw} {submission : Submission},
    s.calls[i]? = some (d, submission) → submission.Proper t key s.api.db d

/-- Drawn identifiers stay drawn. -/
theorem IntakeStep.drawn (step : IntakeStep t key s a s') {id : UUID} (drawn : id ∈ s.drawn) :
    id ∈ s'.drawn := by
  cases step with
  | begin => exact List.mem_cons_of_mem _ drawn
  | advance => exact drawn
  | other => exact List.mem_append_right _ drawn

/-- A submission that another step passes by stays in order. -/
theorem Submission.Proper.frame {d : Draw} {submission : Submission}
    (proper : submission.Proper t key s.api.db d)
    (free : s.api.db.jobs.find? d.id = none → s'.api.db.jobs.find? d.id = none) :
    submission.Proper t key s'.api.db d := by
  cases submission with
  | inserting req j => exact ⟨proper.1, proper.2.1, proper.2.2.1, free proper.2.2.2⟩
  | fetching key' => exact proper
  | enqueueing j => exact proper
  | answered response => exact proper

/-- A refusal carries no job. -/
theorem Submission.Proper.refusal {db : Db} {d : Draw} {status : Nat} {message : String} :
    (Submission.answered (writeError status message)).Proper t key db d := by
  intro j same
  cases same

/-- The next statement of a submission leaves it in order. -/
theorem Submission.Proper.advance {d : Draw} {before after : Submission} {api : ApiState} {db : Db}
    (proper : before.Proper t key s.api.db d) (moved : Advance t s.api before after api) :
    after.Proper t key db d := by
  cases moved with
  | stored inserted becomes =>
    rcases becomes with rfl | rfl
    · exact ⟨proper.1, proper.2.1⟩
    · rintro j same
      cases same
      exact ⟨proper.2.1, fun _ => proper.1⟩
  | clashed keyed => exact Option.some.inj (keyed.symm.trans proper.2.2.1)
  | read stored keyed =>
    rintro j same
    cases same
    have own : _ = key := proper
    exact ⟨own ▸ keyed, nofun⟩
  | pushed =>
    rintro j same
    cases same
    exact ⟨proper.2, fun _ => proper.1⟩
  | refused => exact .refusal
  | rest => exact proper

/-- Every step keeps the submissions in order. -/
theorem Intake.Sound.step (sound : s.Sound t key) (step : IntakeStep t key s a s') :
    s'.Sound t key := by
  constructor
  · -- A submission keeps its draw from its beginning to its end.
    intro i d submission called
    rcases step.call_cases called with ⟨old, -⟩ | ⟨before, -, old, -⟩ | ⟨-, drawn, -⟩
    · exact step.drawn (sound.known old)
    · exact step.drawn (sound.known old)
    · exact drawn
  · -- A new submission has an identifier that no other one can have.
    intro i i' d d' submission submission' called called' same
    have origin {i : Nat} {d : Draw} {submission : Submission}
        (called : s'.calls[i]? = some (d, submission)) :
        (∃ before, s.calls[i]? = some (d, before)) ∨ s.Fresh d.id ∧ i = s.calls.length := by
      rcases step.call_cases called with
        ⟨old, -⟩ | ⟨before, -, old, -⟩ | ⟨fresh, -, last, -⟩
      · exact .inl ⟨_, old⟩
      · exact .inl ⟨_, old⟩
      · exact .inr ⟨fresh, last⟩
    rcases origin called with ⟨before, old⟩ | ⟨fresh, last⟩ <;>
      rcases origin called' with ⟨before', old'⟩ | ⟨fresh', last'⟩
    · exact sound.apart old old' same
    · exact absurd (same ▸ sound.known old) fresh'.1
    · exact absurd (same ▸ sound.known old') fresh.1
    · exact last.trans last'.symm
  · intro i d submission called
    rcases step.call_cases called with
      ⟨old, passed⟩ | ⟨before, -, old, moved⟩ | ⟨fresh, -, -, ⟨body, rfl⟩, outcome⟩
    · -- The step passes the submission by, and nobody else can take its identifier.
      refine (sound.proper old).frame fun free => ?_
      have effect := step.row_effect d.id
      rw [free] at effect
      generalize s'.api.db.jobs.find? d.id = row at effect
      cases effect with
      | keep => rfl
      | @store i' d' req j called' named =>
        -- The stored job is that of another submission.
        have other := (sound.proper called').1
        have same := sound.apart old called' (named.symm.trans other)
        exact absurd (by rw [same]) passed
      | @other op _ _ change _ fresh =>
        cases change with
        | keep => rfl
        | insert named =>
          exact absurd (sound.known old) (fresh d.id (by simp [Op.draws, named])).1
    · exact (sound.proper old).advance moved
    · rcases outcome with ⟨status, message, rfl⟩ | ⟨req, keyed, rfl⟩
      · exact .refusal
      · refine ⟨rfl, by simp [Job.idempotency, submittedJob, keyed], keyed, ?_⟩
        have effect := step.row_effect d.id
        rw [fresh.2] at effect
        generalize s'.api.db.jobs.find? d.id = row at effect ⊢
        cases effect
        rfl

/-- A job holds the key. -/
def Holds (t : Tenant) (key : String) (s : Intake) (id : UUID) : Prop :=
  ∃ row, s.api.db.jobs.find? id = some row ∧ row.idempotency = some (t.id, key)

/-- The key has one holder at a time. -/
theorem Holds.unique {id id' : UUID} (holds : Holds t key s id) (holds' : Holds t key s id') :
    id = id' := by
  -- This is where the unique constraint of the table comes in.
  obtain ⟨row, found, keyed⟩ := holds
  obtain ⟨row', found', keyed'⟩ := holds'
  have stored (k : UUID) (row : Job) (found : s.api.db.jobs.find? k = some row) :
      row ∈ s.api.db.jobs.rows := List.mem_of_find?_eq_some found
  rw [← Table.key_of_find? found, ← Table.key_of_find? found',
    Table.eq_of_index (stored _ _ found) (stored _ _ found') keyed keyed']

/-- No call changes under which key a job was submitted. -/
theorem RowStep.idempotency {k : UUID} {op : Op} {old new : Job}
    (step : RowStep k op (some old) (some new)) : new.idempotency = old.idempotency := by
  cases step <;> rfl

/-- A new holder has just been stored, when the key was free. -/
theorem Holds.origin {id : UUID} (sound : s.Sound t key) (step : IntakeStep t key s a s')
    (holds : Holds t key s' id) :
    Holds t key s id ∨ stores id ⟨s, a, s'⟩ = true ∧ ∀ other, ¬ Holds t key s other := by
  obtain ⟨row, found, keyed⟩ := holds
  have effect := step.row_effect id
  generalize before : s.api.db.jobs.find? id = old at effect
  rw [found] at effect
  cases effect with
  | keep => exact .inl ⟨row, before, keyed⟩
  | @store i d req j called named alone =>
    -- A submission has stored it, which it could not have done with the key in use.
    refine .inr ⟨by simp [stores, before, found], ?_⟩
    rintro other ⟨row', found', keyed'⟩
    exact alone row' (List.mem_of_find?_eq_some found') _ (sound.proper called).2.1 keyed'
  | @other op _ _ change unkeyed =>
    cases old with
    | some old => exact .inl ⟨old, before, change.idempotency ▸ keyed⟩
    | none =>
      -- The insertions of others have other keys.
      cases change with
      | @insert j => exact absurd keyed (unkeyed j rfl)

/-- A job stops holding the key only when it is cancelled. -/
theorem Holds.lost {id : UUID} (step : IntakeStep t key s a s') (holds : Holds t key s id) :
    Holds t key s' id ∨ Cancels id ⟨s, a, s'⟩ := by
  -- Updates keep the key, so the row must have been deleted.
  obtain ⟨row, found, keyed⟩ := holds
  have effect := step.row_effect id
  generalize after : s'.api.db.jobs.find? id = new at effect
  rw [found] at effect
  cases effect with
  | keep => exact .inl ⟨row, after, keyed⟩
  | @other op _ _ change =>
    cases new with
    | some new => exact .inl ⟨new, after, change.idempotency.trans keyed⟩
    | none =>
      cases change with
      | cancel => exact .inr ⟨⟨_, rfl⟩, by simp [found], after⟩

/-- A submission answers with the job, or is about to. -/
def Carried (s : Intake) (j : Job) : Prop :=
  ∃ (i : Nat) (d : Draw) (submission : Submission),
    s.calls[i]? = some (d, submission) ∧ submission.carries = some j

/-- A submission comes to answer with the job that holds the key. -/
theorem Carried.origin {j : Job} (sound : s.Sound t key) (step : IntakeStep t key s a s')
    (carried : Carried s' j) : Carried s j ∨ Holds t key s' j.id := by
  obtain ⟨i, d, submission, called, carries⟩ := carried
  rcases step.call_cases called with
    ⟨old, -⟩ | ⟨before, -, old, moved⟩ | ⟨-, -, -, -, outcome⟩
  · exact .inl ⟨i, d, submission, old, carries⟩
  · have proper := sound.proper old
    unfold Holds
    generalize s'.api = api at moved
    cases moved with
    | @stored req j' jobs _ inserted becomes =>
      -- The job has just been stored, with the key of the submission.
      have same : j' = j := by
        rcases becomes with rfl | rfl <;> exact Option.some.inj carries
      subst same
      exact .inr ⟨j'.inserted, by simp [Table.find?_insert inserted, Job.inserted], proper.2.1⟩
    | clashed => cases carries
    | @read key' j' stored keyed =>
      -- The job was read from the table, by the key.
      cases carries
      have own : key' = key := proper
      exact .inr ⟨j, Table.mem_rows_iff.mp stored, own ▸ keyed⟩
    | pushed =>
      cases carries
      exact .inl ⟨i, d, _, old, rfl⟩
    | refused => cases carries
    | rest => exact .inl ⟨i, d, _, old, carries⟩
  · rcases outcome with ⟨status, message, rfl⟩ | ⟨req, -, rfl⟩ <;> cases carries

/-- What has happened stays so. -/
theorem Superseded.snoc {id id' : UUID} (superseded : Superseded past id id')
    (e : Step Intake IntakeAction) : Superseded (past ++ [e]) id id' := by
  obtain ⟨earlier, e₁, later, rfl, cancels, e₂, listed, stored⟩ := superseded
  exact ⟨earlier, e₁, later ++ [e], by simp, cancels, e₂, List.mem_append_left _ listed, stored⟩

/-- A job that is stored now supersedes the jobs cancelled before. -/
theorem Superseded.now {id id' : UUID} {e : Step Intake IntakeAction}
    (cancelled : ∃ e ∈ past, Cancels id e) (stored : stores id' e = true) :
    Superseded (past ++ [e]) id id' := by
  obtain ⟨e₁, listed, cancels⟩ := cancelled
  obtain ⟨earlier, later, rfl⟩ := List.append_of_mem listed
  exact ⟨earlier, e₁, later ++ [e], by simp, cancels, e, by simp, stored⟩

/-- Of the jobs that submissions answer with, only one can hold the key, and it is the latest. -/
structure Lineage (t : Tenant) (key : String) (past : List (Step Intake IntakeAction))
    (s : Intake) : Prop where
  latest : ∀ j, Carried s j → Holds t key s j.id ∨
    (∃ e ∈ past, Cancels j.id e) ∧ ∀ id, Holds t key s id → Superseded past j.id id
  ordered : ∀ j j', Carried s j → Carried s j' → j.id ≠ j'.id →
    Superseded past j.id j'.id ∨ Superseded past j'.id j.id

/-- Every step keeps the lineage. -/
theorem Lineage.step (lineage : Lineage t key past s) (sound : s.Sound t key)
    (step : IntakeStep t key s a s') : Lineage t key (past ++ [⟨s, a, s'⟩]) s' := by
  have latest : ∀ j, Carried s' j → Holds t key s' j.id ∨
      (∃ e ∈ past ++ [⟨s, a, s'⟩], Cancels j.id e) ∧
        ∀ id, Holds t key s' id → Superseded (past ++ [⟨s, a, s'⟩]) j.id id := by
    -- A job that no longer holds the key was cancelled, and all later holders were stored since.
    intro j carried
    rcases carried.origin sound step with old | holds
    · rcases lineage.latest j old with holds | ⟨⟨e, listed, cancels⟩, later⟩
      · refine (holds.lost step).imp_right fun cancels => ⟨⟨_, by simp, cancels⟩, ?_⟩
        -- The key is free after the cancellation.
        intro id holds'
        rcases holds'.origin sound step with old' | ⟨-, free⟩
        · obtain ⟨row, found, -⟩ := holds'
          rw [← holds.unique old', cancels.2.2] at found
          cases found
        · exact absurd holds (free _)
      · refine .inr ⟨⟨e, List.mem_append_left _ listed, cancels⟩, fun id holds' => ?_⟩
        rcases holds'.origin sound step with old' | ⟨stored, -⟩
        · exact (later id old').snoc _
        · exact .now ⟨e, listed, cancels⟩ stored
    · exact .inl holds
  refine ⟨latest, fun j j' carried carried' differ => ?_⟩
  -- A job that is new to the answers holds the key, so the other one came before it.
  have before {j j' : Job} (carried : Carried s' j) (differ : j.id ≠ j'.id)
      (holds : Holds t key s' j'.id) : Superseded (past ++ [⟨s, a, s'⟩]) j.id j'.id := by
    rcases latest j carried with holds' | ⟨-, later⟩
    · exact absurd (holds'.unique holds) differ
    · exact later _ holds
  rcases carried.origin sound step with old | holds
  · rcases carried'.origin sound step with old' | holds'
    · exact (lineage.ordered j j' old old' differ).imp (·.snoc _) (·.snoc _)
    · exact .inl (before carried differ holds')
  · exact .inr (before carried' differ.symm holds)

/-- The job that a submission has stored itself. -/
def Submission.created : Submission → Option Job
  | answered response => if response.status = 201 then (answered response).carries else none
  | submission => submission.carries

/-- How often a submission may have queued its job. -/
def Submission.queueings : Submission → Nat
  | answered _ => 1
  | _ => 0

/-- A job is stored by the submission that has drawn its identifier, or under a fresh one. -/
theorem stores_cases {id : UUID} (sound : s.Sound t key) (step : IntakeStep t key s a s')
    (stored : stores id ⟨s, a, s'⟩ = true) :
    (∃ i d, a = .advance i ∧ (∃ submission, s.calls[i]? = some (d, submission)) ∧ d.id = id) ∨
      (∃ op, a = .other op) ∧ s.Fresh id ∧ id ∈ s'.drawn := by
  simp only [stores, Bool.and_eq_true, Option.isNone_iff_eq_none] at stored
  obtain ⟨before, after⟩ := stored
  obtain ⟨row, found⟩ := Option.isSome_iff_exists.mp after
  have effect := step.row_effect id
  rw [before, found] at effect
  cases effect with
  | @store i d req j called named =>
    exact .inl ⟨i, d, rfl, ⟨_, called⟩, (sound.proper called).1.symm.trans named⟩
  | @other op _ _ change _ fresh =>
    cases change with
    | @insert j named =>
      have drawn : id ∈ Op.draws (.insertJob j) := by simp [Op.draws, named]
      refine .inr ⟨⟨_, rfl⟩, fresh id drawn, ?_⟩
      cases step with
      | other => exact List.mem_append_left _ drawn

/-- A queueing is one by the submission that has drawn the identifier. -/
theorem pushes_cases {id : UUID} (sound : s.Sound t key) (pushed : pushes id ⟨s, a, s'⟩ = true) :
    ∃ i d j, a = .advance i ∧ s.calls[i]? = some (d, .enqueueing j) ∧ d.id = id := by
  unfold pushes at pushed
  split at pushed
  · rename_i i label
    split at pushed
    · rename_i d j called
      exact ⟨i, d, j, label, called, (sound.proper called).1.symm.trans (beq_iff_eq.mp pushed)⟩
    · cases pushed
  · cases pushed

/-- Submissions do not disappear. -/
theorem IntakeStep.call_persists (step : IntakeStep t key s a s') {i : Nat} {d : Draw}
    {submission : Submission} (called : s.calls[i]? = some (d, submission)) :
    ∃ next, s'.calls[i]? = some (d, next) := by
  have small : i < s.calls.length := (List.getElem?_eq_some_iff.mp called).1
  cases step with
  | begin => exact ⟨submission, by rw [List.getElem?_append_left small, called]⟩
  | @advance k d' before found =>
    by_cases own : k = i
    · subst own
      rw [found] at called
      cases called
      exact ⟨_, by rw [List.getElem?_set_self small]⟩
    · exact ⟨submission, by rw [List.getElem?_set_ne own, called]⟩
  | other => exact ⟨submission, called⟩

/--
What the past says about a submission.

Its job is stored once if it says so, and queued after that at most.
-/
structure Submission.Counts (past : List (Step Intake IntakeAction)) (d : Draw)
    (submission : Submission) : Prop where
  stored : past.countP (stores d.id) = if submission.created.isSome then 1 else 0
  queued : past.countP (pushes d.id) ≤ submission.queueings
  account : ∀ j, submission.created = some j →
    ∃ e ∈ past, stores j.id e = true ∧ e.post.api.db.jobs.find? j.id = some j.inserted

/-- What the past says about storing and queueing under each identifier. -/
structure Ledger (past : List (Step Intake IntakeAction)) (s : Intake) : Prop where
  untouched : ∀ id, id ∉ s.drawn → past.countP (stores id) = 0
  unqueued : ∀ id, (∀ (i : Nat) (d : Draw) (submission : Submission),
    s.calls[i]? = some (d, submission) → d.id ≠ id) → past.countP (pushes id) = 0
  counted : ∀ {i : Nat} {d : Draw} {submission : Submission},
    s.calls[i]? = some (d, submission) → submission.Counts past d

/-- A step that passes a submission by does not count for it. -/
theorem passed_by {i : Nat} {d : Draw} {submission : Submission} (sound : s.Sound t key)
    (step : IntakeStep t key s a s') (called : s.calls[i]? = some (d, submission))
    (passed : a ≠ .advance i) :
    stores d.id ⟨s, a, s'⟩ = false ∧ pushes d.id ⟨s, a, s'⟩ = false := by
  constructor
  · refine Bool.eq_false_iff.mpr fun stored => ?_
    rcases stores_cases sound step stored with ⟨i', d', rfl, ⟨_, called'⟩, same⟩ | ⟨-, fresh, -⟩
    · exact passed (by rw [sound.apart called called' same.symm])
    · exact fresh.1 (sound.known called)
  · refine Bool.eq_false_iff.mpr fun pushed => ?_
    obtain ⟨i', d', j, rfl, called', same⟩ := pushes_cases sound pushed
    exact passed (by rw [sound.apart called called' same.symm])

/-- A step that does not count for a submission leaves its account as it is. -/
theorem Submission.Counts.snoc {d : Draw} {before submission : Submission}
    {e : Step Intake IntakeAction} (counts : before.Counts past d)
    (idle : stores d.id e = false ∧ pushes d.id e = false)
    (same : submission.created = before.created)
    (more : before.queueings ≤ submission.queueings) : submission.Counts (past ++ [e]) d where
  stored := by simpa [List.countP_append, idle.1, same] using counts.stored
  queued := by simpa [List.countP_append, idle.2] using counts.queued.trans more
  account j own := by
    obtain ⟨e, listed, there⟩ := counts.account j (same ▸ own)
    exact ⟨e, List.mem_append_left _ listed, there⟩

/-- A step that stores the job of a submission is the first one to do so. -/
theorem Submission.Counts.store {d : Draw} {before submission : Submission} {j : Job}
    {e : Step Intake IntakeAction} (counts : before.Counts past d) (empty : before.created = none)
    (created : submission.created = some j) (own : j.id = d.id) (stored : stores j.id e = true)
    (found : e.post.api.db.jobs.find? j.id = some j.inserted) (silent : pushes d.id e = false)
    (more : before.queueings ≤ submission.queueings) : submission.Counts (past ++ [e]) d where
  stored := by
    have first := counts.stored
    rw [empty] at first
    rw [own] at stored
    rw [created, List.countP_append, first, List.countP_singleton, stored]
    rfl
  queued := by simpa [List.countP_append, silent] using counts.queued.trans more
  account j' same := by
    cases created.symm.trans same
    exact ⟨e, by simp, stored, found⟩

/-- A step that queues the job of a submission is the first one to do so. -/
theorem Submission.Counts.push {d : Draw} {before submission : Submission}
    {e : Step Intake IntakeAction} (counts : before.Counts past d) (first : before.queueings = 0)
    (same : submission.created = before.created) (idle : stores d.id e = false)
    (once : submission.queueings = 1) : submission.Counts (past ++ [e]) d where
  stored := by simpa [List.countP_append, idle, same] using counts.stored
  queued := by
    -- Nothing was queued before, and a step queues a job at most once.
    have none_yet : past.countP (pushes d.id) = 0 := Nat.le_zero.mp (first ▸ counts.queued)
    rw [List.countP_append, none_yet, once, Nat.zero_add]
    exact List.countP_le_length
  account j own := by
    obtain ⟨e, listed, there⟩ := counts.account j (same ▸ own)
    exact ⟨e, List.mem_append_left _ listed, there⟩

/-- A refusal has created nothing. -/
theorem Submission.created_refusal (status : Nat) (message : String) :
    (answered (writeError status message)).created = none :=
  ite_self _

/-- What carries no job has created none. -/
theorem Submission.created_of_carries {submission : Submission}
    (empty : submission.carries = none) : submission.created = none := by
  cases submission with
  | answered response => simp [Submission.created, empty]
  | _ => exact empty

/-- The statement that a submission makes counts for it as it should. -/
theorem Submission.Counts.advance {k : Nat} {d : Draw} {before submission : Submission}
    (counts : before.Counts past d) (called : s.calls[k]? = some (d, before))
    (proper : before.Proper t key s.api.db d)
    (moved : Advance t s.api before submission s'.api) :
    submission.Counts (past ++ [.mk s (.advance k) s']) d := by
  -- Only an insertion changes the jobs, and only one kind of statement pushes.
  have kept (same : s'.api.db = s.api.db) : stores d.id (.mk s (.advance k) s') = false := by
    simp only [stores, same]
    cases s.api.db.jobs.find? d.id <;> rfl
  have silent (other : ∀ j, before ≠ .enqueueing j) :
      pushes d.id (.mk s (.advance k) s') = false := by
    simp only [pushes, called]
    cases before with
    | enqueueing j => exact absurd rfl (other j)
    | _ => rfl
  generalize api : s'.api = after at moved
  cases moved with
  | @stored req j jobs _ inserted becomes =>
    have created : submission.created = some j := by
      rcases becomes with rfl | rfl <;> rfl
    have found : s'.api.db.jobs.find? j.id = some j.inserted := by
      rw [api]
      simp [Table.find?_insert inserted, Job.inserted]
    have free : s.api.db.jobs.find? j.id = none := proper.1 ▸ proper.2.2.2
    exact counts.store rfl created proper.1 (by simp [stores, found, free]) found
      (silent (by simp)) (Nat.zero_le _)
  | clashed => exact counts.snoc ⟨kept (by rw [api]), silent (by simp)⟩ rfl le_rfl
  | read => exact counts.snoc ⟨kept (by rw [api]), silent (by simp)⟩ rfl (Nat.zero_le _)
  | pushed => exact counts.push rfl rfl (kept (by rw [api])) rfl
  | refused closed =>
    refine counts.snoc ⟨kept (by rw [api]), silent ?_⟩ ?_ ?_
    · rintro j rfl
      cases closed
    · rw [Submission.created_refusal, Submission.created_of_carries closed]
    · cases before <;> simp [Submission.queueings]
  | rest => exact counts.snoc ⟨kept (by rw [api]), silent (by simp)⟩ rfl le_rfl

/-- Every step keeps the accounts. -/
theorem Ledger.step (ledger : Ledger past s) (sound : s.Sound t key)
    (step : IntakeStep t key s a s') : Ledger (past ++ [⟨s, a, s'⟩]) s' := by
  constructor
  · intro id undrawn
    have idle : stores id ⟨s, a, s'⟩ = false := by
      refine Bool.eq_false_iff.mpr fun stored => undrawn ?_
      rcases stores_cases sound step stored with ⟨i, d, -, ⟨_, called⟩, rfl⟩ | ⟨-, -, drawn⟩
      · exact step.drawn (sound.known called)
      · exact drawn
    have before := ledger.untouched id fun drawn => undrawn (step.drawn drawn)
    simp [List.countP_append, before, idle]
  · intro id absent
    have idle : pushes id ⟨s, a, s'⟩ = false := by
      refine Bool.eq_false_iff.mpr fun pushed => ?_
      obtain ⟨i, d, j, -, called, same⟩ := pushes_cases sound pushed
      obtain ⟨next, called'⟩ := step.call_persists called
      exact absent i d next called' same
    have before := ledger.unqueued id fun i d submission called => by
      obtain ⟨next, called'⟩ := step.call_persists called
      exact absent i d next called'
    simp [List.countP_append, before, idle]
  · intro i d submission called
    rcases step.call_cases called with
      ⟨old, passed⟩ | ⟨before, rfl, old, moved⟩ | ⟨fresh, -, -, ⟨body, rfl⟩, outcome⟩
    · exact (ledger.counted old).snoc (passed_by sound step old passed) rfl le_rfl
    · exact (ledger.counted old).advance old (sound.proper old) moved
    · -- Nothing has happened yet under the identifier of a new submission.
      have empty : submission.created = none := by
        rcases outcome with ⟨status, message, rfl⟩ | ⟨req, -, rfl⟩
        · exact Submission.created_refusal status message
        · rfl
      have unqueued := ledger.unqueued d.id fun i d' submission called same =>
        fresh.1 (same ▸ sound.known called)
      have start : submission.Counts past d :=
        ⟨by simp [empty, ledger.untouched d.id fresh.1], by simp [unqueued], by simp [empty]⟩
      refine start.snoc ⟨Bool.eq_false_iff.mpr fun stored => ?_, rfl⟩ rfl le_rfl
      rcases stores_cases sound step stored with ⟨_, _, begun, -⟩ | ⟨⟨_, begun⟩, -⟩ <;> cases begun

/-- All that holds in every state that is reached. -/
theorem intake_invariants {api : ApiState}
    (run : Run (IntakeStep t key) (Intake.opened api) past s) :
    s.Sound t key ∧ Ledger past s ∧ Lineage t key past s := by
  -- Without submissions there is nothing to keep, and every step keeps all three.
  refine run.history (fun past s => s.Sound t key ∧ Ledger past s ∧ Lineage t key past s)
    ⟨⟨nofun, nofun, nofun⟩, ⟨by simp, by simp, nofun⟩, ⟨?_, ?_⟩⟩ ?_
  · rintro j ⟨i, d, submission, called, -⟩
    cases called
  · rintro j j' ⟨i, d, submission, called, -⟩
    cases called
  · rintro past s a s' - ⟨sound, ledger, lineage⟩ step
    exact ⟨sound.step step, ledger.step sound step, lineage.step sound step⟩

/--
Submissions of one tenant under one key, however their statements are interleaved with each other
and with the calls of other processes.
-/
theorem submission_idempotent {api : ApiState}
    (run : Run (IntakeStep t key) (Intake.opened api) past s) :
    -- At most one row has the tenant and the key.
    s.api.db.jobs.rows.countP (fun j => j.tenantID == t.id && j.idempotencyKey == some key) ≤ 1 ∧
    -- A job answered with 201 has been stored once, as it was answered, and by no one else.
    (∀ i j, s.Answered i ⟨201, .job j⟩ → past.countP (stores j.id) = 1 ∧
      (∃ e ∈ past, stores j.id e = true ∧ e.post.api.db.jobs.find? j.id = some j.inserted) ∧
      ∀ i' j', s.Answered i' ⟨201, .job j'⟩ → j'.id = j.id → i' = i) ∧
    -- No job is queued twice by submissions.
    (∀ id, past.countP (pushes id) ≤ 1) ∧
    -- A job answered with 200 is one of the tenant and the key.
    (∀ i j, s.Answered i ⟨200, .job j⟩ → j.tenantID = t.id ∧ j.idempotencyKey = some key) ∧
    -- Of two different jobs in answers, one was cancelled before the other was stored.
    ∀ i i' status status' j j', s.Answered i ⟨status, .job j⟩ → s.Answered i' ⟨status', .job j'⟩ →
      j.id ≠ j'.id → Superseded past j.id j'.id ∨ Superseded past j'.id j.id := by
  obtain ⟨sound, ledger, lineage⟩ := intake_invariants run
  refine ⟨?_, ?_, ?_, ?_, ?_⟩
  · -- The two columns are the entry of the unique index.
    refine le_trans (List.countP_mono_left fun j _ hit => ?_)
      (s.api.db.jobs.countP_index_le_one (t.id, key))
    simp only [Bool.and_eq_true, beq_iff_eq] at hit
    simp [Job.idempotency, hit]
  · rintro i j ⟨d, called⟩
    have own := ((sound.proper called) j rfl).2 rfl
    obtain ⟨stored, -, account⟩ := ledger.counted called
    rw [← own] at stored
    refine ⟨stored, account j rfl, ?_⟩
    rintro i' j' ⟨d', called'⟩ same
    have own' := ((sound.proper called') j' rfl).2 rfl
    exact sound.apart called' called (own'.symm.trans (same.trans own))
  · -- Only the submission that has drawn the identifier can have queued it.
    intro id
    by_cases drawn : ∃ (i : Nat) (d : Draw) (submission : Submission),
        s.calls[i]? = some (d, submission) ∧ d.id = id
    · obtain ⟨i, d, submission, called, rfl⟩ := drawn
      refine (ledger.counted called).queued.trans ?_
      cases submission <;> simp [Submission.queueings]
    · refine (ledger.unqueued id fun i d submission called same => ?_).le.trans (Nat.zero_le 1)
      exact drawn ⟨i, d, submission, called, same⟩
  · rintro i j ⟨d, called⟩
    have keyed := ((sound.proper called) j rfl).1
    obtain ⟨key', given, same⟩ := Option.map_eq_some_iff.mp keyed
    obtain ⟨owner, rfl⟩ := Prod.mk.inj same
    exact ⟨owner, given⟩
  · rintro i i' status status' j j' ⟨d, called⟩ ⟨d', called'⟩ differ
    exact lineage.ordered j j' ⟨i, d, _, called, rfl⟩ ⟨i', d', _, called', rfl⟩ differ

/-- What a step leads to when the others leave the Redis lists and the counters alone. -/
def Intake.act (t : Tenant) (s : Intake) : IntakeAction → Intake
  | .begin body d =>
    let (submission, api) := Submission.start t body d s.api
    ⟨api, s.calls ++ [(d, submission)], d.id :: s.drawn⟩
  | .advance i =>
    match s.calls[i]? with
    | some (d, submission) =>
      let (submission, api) := submission.step t d s.api
      { s with api, calls := s.calls.set i (d, submission) }
    | none => s
  | .other op =>
    { s with api := { s.api with db := op.apply s.api.db }, drawn := op.draws ++ s.drawn }

/-- Whether a step that inserts nothing on behalf of others may be taken. -/
def Intake.allows (key : String) (s : Intake) : IntakeAction → Bool
  | .begin body d => body.all (fun req => req.idempotencyKey == some key) &&
      !s.drawn.contains d.id && (s.api.db.jobs.find? d.id).isNone
  | .advance i => s.calls[i]?.isSome
  | .other op => op.draws.isEmpty

theorem Intake.act_step (allowed : s.allows key a = true) : IntakeStep t key s a (s.act t a) := by
  cases a with
  | begin body d =>
    simp only [Intake.allows, Bool.and_eq_true, Bool.not_eq_true', Option.isNone_iff_eq_none,
      List.contains_eq_mem, decide_eq_false_iff_not] at allowed
    obtain ⟨⟨keyed, undrawn⟩, absent⟩ := allowed
    exact .begin (fun req given => by simpa [given] using keyed) ⟨undrawn, absent⟩
  | advance i =>
    obtain ⟨⟨d, submission⟩, called⟩ := Option.isSome_iff_exists.mp allowed
    simp only [Intake.act, called]
    exact .advance called
  | other op =>
    have none_drawn : op.draws = [] := List.isEmpty_iff.mp allowed
    refine .other (fun j same => ?_) fun id listed => ?_
    · rw [same] at none_drawn
      cases none_drawn
    · rw [none_drawn] at listed
      cases listed

/-- A submission under a key. -/
def keyedRequest : SubmitJobRequest :=
  { SubmitJobRequest.bare "webhook" .null with idempotencyKey := some "k" }

/-- Two submissions at once, a cancellation of the job they share, and one more submission. -/
def resubmission : List IntakeAction :=
  [.begin (some keyedRequest) (.prompt 10 0), .begin (some keyedRequest) (.prompt 11 0),
    .advance 0, .advance 1, .advance 1, .advance 0, .other (.cancelJob 10 1),
    .begin (some keyedRequest) (.prompt 12 0), .advance 2, .advance 2]

theorem submission_idempotent_resubmitted :
    let s := resubmission.foldl (Intake.act devTenant) (.opened .initial)
    let past := trace (Intake.act devTenant) (.opened .initial) resubmission
    s.Answered 0 ⟨201, .job (submittedJob 1 keyedRequest 10 0)⟩ ∧
      s.Answered 1 ⟨200, .job (submittedJob 1 keyedRequest 10 0)⟩ ∧
      s.Answered 2 ⟨201, .job (submittedJob 1 keyedRequest 12 0)⟩ ∧
      (Superseded past 10 12 ∨ Superseded past 12 10) := by
  intro s past
  have admissible : ∀ e ∈ past, IntakeStep devTenant "k" e.pre e.label e.post := by
    have allowed : past.all (fun e => e.pre.allows "k" e.label) = true := by decide +kernel
    intro e listed
    rw [(mem_trace listed).2]
    exact Intake.act_step (List.all_eq_true.mp allowed e listed)
  have first : s.Answered 0 ⟨201, .job (submittedJob 1 keyedRequest 10 0)⟩ :=
    ⟨.prompt 10 0, by decide +kernel⟩
  have last : s.Answered 2 ⟨201, .job (submittedJob 1 keyedRequest 12 0)⟩ :=
    ⟨.prompt 12 0, by decide +kernel⟩
  have ordered := (submission_idempotent (run_trace admissible)).2.2.2.2
  exact ⟨first, ⟨.prompt 11 0, by decide +kernel⟩, last, ordered _ _ _ _ _ _ first last (by decide)⟩

end Sluice
