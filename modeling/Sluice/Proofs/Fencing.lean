import Sluice.Proofs.Consistency

/-! A worker's calls take effect only while the claim they name is the job's current one. -/

namespace Sluice

open Relational Transition

/-- The job and the claim token named by a call that only the holder of a claim may make. -/
def Op.fenced : Op → Option (UUID × UUID)
  | markRunning jobID token => some (jobID, token)
  | extendDeadline jobID token _ => some (jobID, token)
  | completeJob jobID _ token _ => some (jobID, token)
  | completeRow jobID token _ => some (jobID, token)
  | failJob jobID _ token _ _ _ => some (jobID, token)
  | _ => none

/-- The calls that can end a claim: completion, failure, the reaper, and force-fail. -/
def Op.endsClaims : Op → Bool
  | completeJob .. | completeRow .. | failJob .. | requeueStaleJob .. | cmdForceFail .. => true
  | _ => false

/-- A step that claimed the job with this token. -/
def claimedWith (jobID token : UUID) (e : Step Db Op) : Prop :=
  e.label.claims jobID e.pre = true ∧
    ∃ workerID deadline runID now, e.label = .tryClaim jobID workerID token deadline runID now

/-- A step that did not claim the job. -/
def unclaimed (jobID : UUID) (e : Step Db Op) : Prop := e.label.claims jobID e.pre = false

/-- A step that neither claimed the job nor ended the claim on it. -/
def undisturbed (jobID : UUID) (e : Step Db Op) : Prop :=
  unclaimed jobID e ∧
    (e.label.endsClaims = true → e.post.jobs.find? jobID = e.pre.jobs.find? jobID)

/-- A successful claim leaves its own token in the row. -/
theorem claimedWith_of_claims {k : UUID} {op : Op} {db : Db} (claimed : op.claims k db = true)
    {row : Job} (stored : (op.apply db).jobs.find? k = some row) {token : UUID}
    (held : row.claimToken = some token) : claimedWith k token ⟨db, op, op.apply db⟩ := by
  obtain ⟨_, fresh, _, _, _, _, rfl, -, -, after, -⟩ := Op.claims_inv claimed
  -- The row just written carries the token of this very call.
  rw [after, Option.some.injEq] at stored
  rw [← stored, claimRow, Option.some.injEq] at held
  rw [← held]
  exact ⟨claimed, _, _, _, _, rfl⟩

/-- A call that claims nothing carries a token over from the row it found. -/
theorem RowStep.token_kept {k : UUID} {op : Op} {db : Db} {after : Option Job}
    (step : RowStep k op (db.jobs.find? k) after) (calm : op.claims k db = false) {row : Job}
    (stored : after = some row) {token : UUID} (held : row.claimToken = some token) :
    (∃ old, db.jobs.find? k = some old ∧ old.claimToken = some token) ∧
      (op.endsClaims = true → after = db.jobs.find? k) := by
  -- A token only gets into a row by a claim, and every call that ends claims clears it.
  generalize before : db.jobs.find? k = row₀ at step ⊢
  cases step with
  | keep => exact ⟨⟨row, stored, held⟩, fun _ => rfl⟩
  | claim waiting =>
    -- A claim on a pending row would have succeeded.
    rw [Op.claims_of_pending before waiting] at calm
    cases calm
  | start | extend | promoteScheduled | promoteFailed =>
    cases stored
    exact ⟨⟨_, rfl, held⟩, fun ends => absurd ends (by simp [Op.endsClaims])⟩
  | cancel => cases stored
  -- Every other effect clears the token.
  | insert | complete | completeRow | fail | requeue | replay | cmdReplay | forceFail =>
    cases stored
    cases held

/-- The token in a row is that of the latest claim, and nothing has ended that claim since. -/
theorem Calls.token_since {past : List (Step Db Op)} {db : Db} (run : Calls past db) (k : UUID) :
    ∀ row, db.jobs.find? k = some row → ∀ token, row.claimToken = some token →
      Since (undisturbed k) (claimedWith k token) past := by
  -- The history grows by one step, which either is the claim or leaves the token in place.
  refine run.history (fun past db => ∀ row, db.jobs.find? k = some row →
    ∀ token, row.claimToken = some token → Since (undisturbed k) (claimedWith k token) past) ?_ ?_
  · intro row found
    cases found
  · rintro past db op db' - ih ⟨-, rfl⟩ row stored token held
    cases calm : op.claims k db with
    | true => exact .begin (claimedWith_of_claims calm stored held)
    | false =>
      -- The token was there before, so the period since its claim goes on.
      obtain ⟨⟨old, found, kept⟩, same⟩ := (apply_row op db k).token_kept calm stored held
      exact (ih old found token kept).prolong ⟨calm, same⟩

/-- A fenced call changes nothing on a row that carries another token. -/
theorem Op.fenced_miss {op : Op} {jobID token : UUID} (fenced : op.fenced = some (jobID, token))
    {db : Db} (foreign : ∀ row, db.jobs.find? jobID = some row → row.claimToken ≠ some token) :
    op.apply db = db := by
  -- No row meets the ownership condition, which asks for the token.
  have missed : ∀ row, db.jobs.find? jobID = some row → owned jobID token row = false := by
    intro row found
    simp [owned, foreign row found]
  have disowned : ∀ row ∈ db.jobs.rows, owned jobID token row = false :=
    Table.missed_of_key (by simp +contextual [owned]) missed
  cases op with
  | markRunning id t =>
    cases fenced
    have unstarted : ∀ row ∈ db.jobs.rows, startable jobID token row = false :=
      Table.missed_of_key (k := jobID) (by simp +contextual [startable]) fun row found => by
        simp [startable, foreign row found]
    simp only [apply, Sluice.markRunning, Table.update_eq_self unstarted]
  | extendDeadline id t deadline =>
    cases fenced
    simp only [apply, Sluice.extendDeadline, Table.update_eq_self disowned]
  | completeJob id runID t now =>
    cases fenced
    rcases completeJob_spec jobID runID token now db with ⟨row, found, hit, -⟩ | ⟨-, done⟩
    · exact absurd (owned_claim hit).1 (foreign row found)
    · simp only [apply, done]
  | completeRow id t now =>
    cases fenced
    simp only [apply, Sluice.completeRow, Table.update_eq_self disowned]
  | failJob id runID t errMsg nextRunAt now =>
    cases fenced
    rcases failJob_spec jobID runID token errMsg nextRunAt now db with
      ⟨row, found, hit, -⟩ | done
    · exact absurd (owned_claim hit).1 (foreign row found)
    · simp only [apply, done]
  | _ => cases fenced

/--
A fenced call has an effect only if its claim is the job's latest and still in force.

A call with the token of any other claim leaves both tables exactly as they were.
-/
theorem fenced_effect_current {past : List (Step Db Op)} {db : Db} (run : Calls past db)
    {op : Op} {jobID token : UUID} (fenced : op.fenced = some (jobID, token)) :
    ((op.apply db).jobs ≠ db.jobs ∨ (op.apply db).jobRuns ≠ db.jobRuns →
      Since (undisturbed jobID) (claimedWith jobID token) past) ∧
    (¬ Since (unclaimed jobID) (claimedWith jobID token) past →
      (op.apply db).jobs = db.jobs ∧ (op.apply db).jobRuns = db.jobRuns) := by
  -- The stored token decides, whatever the history looks like.
  by_cases current : ∃ row, db.jobs.find? jobID = some row ∧ row.claimToken = some token
  · obtain ⟨row, found, held⟩ := current
    have since := run.token_since jobID row found token held
    exact ⟨fun _ => since, fun never => absurd (since.mono fun _ calm => calm.1) never⟩
  · -- Without the token in the row the call does nothing at all.
    have still : op.apply db = db := op.fenced_miss fenced fun row found held =>
      current ⟨row, found, held⟩
    rw [still]
    exact ⟨fun changed => by simp at changed, fun _ => ⟨rfl, rfl⟩⟩

theorem fenced_effect_current_completed :
    ((Op.completeJob 1 11 21 9).apply (afterCalls claimedLife)).jobs ≠
        (afterCalls claimedLife).jobs ∧
      Since (undisturbed 1) (claimedWith 1 21) (callTrace claimedLife) :=
  have changed : ((Op.completeJob 1 11 21 9).apply (afterCalls claimedLife)).jobs ≠
      (afterCalls claimedLife).jobs := by decide +kernel
  ⟨changed, (fenced_effect_current (calls_callTrace claimedLife_issued) rfl).1 (.inl changed)⟩

end Sluice
