import Sluice.Api.Handler
import Sluice.Proofs.Storage.Specs
import Sluice.Relational.Agree

/-! What a submission does, statement by statement. -/

namespace Sluice

open Relational

variable (t : Tenant) (d : Draw) (s : ApiState)

/-- The checks end in an error or in the job to store, and count the submission at most. -/
theorem start_spec (body : Option SubmitJobRequest) :
    ∃ counters, (Submission.start t body d s).2 = { s with counters } ∧
      ((∃ status message,
          (Submission.start t body d s).1 = .answered (writeError status message)) ∨
        ∃ req, body = some req ∧
          (Submission.start t body d s).1 = .inserting req (submittedJob t.id req d.id d.now)) := by
  -- The checks are made in the order of the definition, and only the last one counts.
  unfold Submission.start
  cases body with
  | none => exact ⟨_, rfl, .inl ⟨_, _, rfl⟩⟩
  | some req =>
    dsimp only
    split
    · exact ⟨_, rfl, .inl ⟨_, _, rfl⟩⟩
    · split
      · exact ⟨_, rfl, .inl ⟨_, _, rfl⟩⟩
      · split
        · exact ⟨_, rfl, .inl ⟨_, _, rfl⟩⟩
        · exact ⟨_, rfl, .inr ⟨req, rfl, rfl⟩⟩

/-- The insertion stores the job, or finds its key taken, or ends in an error. -/
theorem step_inserting (req : SubmitJobRequest) (j : Job) :
    (∃ jobs, s.db.jobs.insert? j.inserted = some jobs ∧
      insertJob j s.db = (.ok (), { s.db with jobs }) ∧
      (Submission.inserting req j).step t d s =
        (if j.state == .pending then .enqueueing j else .answered ⟨201, .job j⟩,
          { s with db := { s.db with jobs } })) ∨
    (∃ key, req.idempotencyKey = some key ∧
      (Submission.inserting req j).step t d s = (.fetching key, s)) ∨
    ∃ status message,
      (Submission.inserting req j).step t d s = (.answered (writeError status message), s) := by
  -- Of the errors of an insertion only a duplicate is looked into.
  rcases insertJob_spec j s.db with ⟨jobs, stored, -, done⟩ | ⟨e, done⟩
  · exact .inl ⟨jobs, stored, done, by simp only [Submission.step, done]⟩
  · refine .inr ?_
    simp only [Submission.step, done]
    cases e with
    | duplicate =>
      cases req.idempotencyKey with
      | some key => exact .inl ⟨key, rfl, rfl⟩
      | none => exact .inr ⟨_, _, rfl⟩
    | notFound => exact .inr ⟨_, _, rfl⟩
    | outOfRange => exact .inr ⟨_, _, rfl⟩
    | notNull => exact .inr ⟨_, _, rfl⟩

/-- The job that is read for a key is stored under that key. -/
theorem getJobByIdempotencyKey_ok {tenantID : UUID} {key : String} {jobs : Jobs} {j : Job}
    (read : getJobByIdempotencyKey tenantID key jobs = .ok j) :
    j ∈ jobs.rows ∧ j.idempotency = some (tenantID, key) := by
  unfold getJobByIdempotencyKey at read
  split at read
  · cases read
  · -- The row meets the condition of the query that has found it.
    rename_i found
    cases read
    have hit := List.find?_some found
    simp only [Bool.and_eq_true, beq_iff_eq] at hit
    exact ⟨List.mem_of_find?_eq_some found, by simp [Job.idempotency, hit]⟩

/-- The read that follows answers with the job of the key, if there is one. -/
theorem step_fetching (key : String) :
    (∃ existing, existing ∈ s.db.jobs.rows ∧ existing.idempotency = some (t.id, key) ∧
      (Submission.fetching key).step t d s = (.answered ⟨200, .job existing⟩, s)) ∨
    ∃ status message,
      (Submission.fetching key).step t d s = (.answered (writeError status message), s) := by
  simp only [Submission.step]
  cases read : getJobByIdempotencyKey t.id key s.db.jobs with
  | ok existing =>
    obtain ⟨stored, keyed⟩ := getJobByIdempotencyKey_ok read
    exact .inl ⟨existing, stored, keyed, rfl⟩
  | error e => exact .inr ⟨_, _, rfl⟩

/-- A submission that has passed its insertion has one statement left at most. -/
theorem step_last (submission : Submission) (past : ∀ req j, submission ≠ .inserting req j) :
    (∃ response, (submission.step t d s).1 = .answered response) ∧
      ∃ redis, (submission.step t d s).2 = { s with redis } := by
  -- A read changes nothing, and queueing changes the lists alone.
  cases submission with
  | inserting req j => exact absurd rfl (past req j)
  | fetching key =>
    rcases step_fetching t d s key with ⟨existing, -, -, done⟩ | ⟨status, message, done⟩
    · exact ⟨⟨_, congrArg Prod.fst done⟩, _, congrArg Prod.snd done⟩
    · exact ⟨⟨_, congrArg Prod.fst done⟩, _, congrArg Prod.snd done⟩
  | enqueueing j =>
    refine ⟨⟨_, rfl⟩, ?_⟩
    simp only [Submission.step, ApiState.enqueue]
    split
    · exact ⟨_, rfl⟩
    · exact ⟨_, rfl⟩
  | answered response => exact ⟨⟨_, rfl⟩, _, rfl⟩

/-- No submission goes back to its insertion. -/
theorem step_ne_inserting (submission : Submission) (req : SubmitJobRequest) (j : Job) :
    (submission.step t d s).1 ≠ .inserting req j := by
  -- Whatever an insertion comes to, the submission goes on behind it.
  intro back
  cases submission with
  | inserting req' j' =>
    rcases step_inserting t d s req' j' with
      ⟨jobs, -, -, done⟩ | ⟨key, -, done⟩ | ⟨status, message, done⟩
    · rw [done] at back
      dsimp only at back
      split at back <;> cases back
    · rw [done] at back
      cases back
    · rw [done] at back
      cases back
  | fetching key =>
    obtain ⟨⟨response, done⟩, -⟩ := step_last t d s (.fetching key) (by simp)
    rw [done] at back
    cases back
  | enqueueing j' => cases back
  | answered response => cases back

/-- A submission by itself is answered, and stores its own job or nothing. -/
theorem handleSubmitJob_spec (body : Option SubmitJobRequest) :
    (∃ response, (handleSubmitJob t body d s).1 = .answered response) ∧
      (handleSubmitJob t body d s).2.tenants = s.tenants ∧
      ((handleSubmitJob t body d s).2.db = s.db ∨ ∃ req, body = some req ∧
        (handleSubmitJob t body d s).2.db =
          (insertJob (submittedJob t.id req d.id d.now) s.db).2) := by
  -- The checks touch the counters, the insertion the jobs, and the last statement the lists.
  obtain ⟨counters, counted, outcome⟩ := start_spec t d s body
  unfold handleSubmitJob
  generalize Submission.start t body d s = started at counted outcome
  obtain ⟨submission, s₁⟩ := started
  dsimp only at counted outcome ⊢
  subst counted
  obtain ⟨answered, redis, last⟩ := step_last t d _ _ (step_ne_inserting t d { s with counters }
    submission)
  rw [last]
  refine ⟨answered, ?_⟩
  rcases outcome with ⟨status, message, rfl⟩ | ⟨req, rfl, rfl⟩
  · exact ⟨rfl, .inl rfl⟩
  · rcases step_inserting t d { s with counters } req (submittedJob t.id req d.id d.now) with
      ⟨jobs, -, inserted, done⟩ | ⟨key, -, done⟩ | ⟨status, message, done⟩
    · rw [done]
      exact ⟨rfl, .inr ⟨req, rfl, by simp [inserted]⟩⟩
    · rw [done]
      exact ⟨rfl, .inl rfl⟩
    · rw [done]
      exact ⟨rfl, .inl rfl⟩

end Sluice
