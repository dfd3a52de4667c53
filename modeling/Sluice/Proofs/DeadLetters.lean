import Sluice.Proofs.Storage.Rows
import Sluice.Proofs.Storage.Scans
import Sluice.Scheduler.Passes

/-! Which dead jobs reach the dead-letter table, and what their entries say about them. -/

namespace Sluice

open Relational Transition

variable {db db' : Db}

/-- Filing a job leaves the jobs alone. -/
@[simp] theorem moveToDeadLetter_jobs (jobID : UUID) (dbNow : Time) (db : Db) :
    (moveToDeadLetter jobID dbNow db).jobs = db.jobs := by
  unfold moveToDeadLetter
  split <;> rfl

/-- The entry with which a dead job is filed. -/
def DeadLetter.of (dbNow : Time) (j : Job) : DeadLetter :=
  { jobID := j.id, tenantID := j.tenantID, movedAt := dbNow, finalError := j.lastError
    attemptCount := j.attempt, originalJob := j }

/-- Filing adds the entry of a dead job that had none, and keeps all others. -/
theorem moveToDeadLetter_find? (jobID : UUID) (dbNow : Time) (db : Db) (k : UUID) :
    (moveToDeadLetter jobID dbNow db).deadLetter.find? k =
      (db.deadLetter.find? k).or (((db.jobs.find? jobID).filter fun j =>
        j.state == .dead && j.id == k).map (.of dbNow)) := by
  unfold moveToDeadLetter
  -- The query names the job, so it reads the job's row or nothing.
  rw [Table.select?_of_key (k := jobID) (by simp +contextual)]
  cases found : db.jobs.find? jobID with
  | none => simp
  | some j =>
    have named : j.id = jobID := Table.key_of_find? found
    by_cases dead : j.state = .dead
    · simp only [Option.filter_some, named, dead, beq_self_eq_true, Bool.and_self, if_true,
        Bool.true_and]
      -- An entry that is there already stays as it is.
      rw [Table.find?_insert_or_keep _ rfl]
      by_cases own : jobID = k <;> simp [own, DeadLetter.of, named]
    · simp [Option.filter_some, dead]

/-- Some calls of a pass, one after the other. -/
def fileAll (calls : List (Job × Time)) (db : Db) : Db :=
  calls.foldl (fun db call => moveToDeadLetter call.1.id call.2 db) db

@[simp] theorem fileAll_jobs (calls : List (Job × Time)) (db : Db) :
    (fileAll calls db).jobs = db.jobs := by
  induction calls generalizing db with
  | nil => rfl
  | cons call calls ih => exact (ih _).trans (moveToDeadLetter_jobs ..)

/-- A job has an entry after a pass exactly if it had one or is dead and among the batch. -/
theorem fileAll_isSome (calls : List (Job × Time)) (db : Db) (stored : ∀ call ∈ calls,
    db.jobs.find? call.1.id = some call.1 ∧ call.1.state = .dead) (k : UUID) :
    ((fileAll calls db).deadLetter.find? k).isSome = true ↔
      (db.deadLetter.find? k).isSome = true ∨ ∃ call ∈ calls, call.1.id = k := by
  -- No call touches the jobs, so the later ones still find theirs as they were listed.
  induction calls generalizing db with
  | nil => simp [fileAll]
  | cons call calls ih =>
    obtain ⟨⟨found, dead⟩, rest⟩ := List.forall_mem_cons.mp stored
    have later := ih (moveToDeadLetter call.1.id call.2 db) (by simpa using rest)
    rw [moveToDeadLetter_find?, found] at later
    refine later.trans ?_
    simp only [Option.filter_some, dead, beq_self_eq_true, Bool.true_and, beq_iff_eq,
      Option.isSome_or, Bool.or_eq_true, Option.isSome_map, List.exists_mem_cons_iff, or_assoc]
    split <;> simp_all

/-- The dead jobs that a listing may put before a given one. -/
theorem ahead_promoteDeadJobs (dbNow : Time) (j : Job) :
    (Scan.promoteDeadJobs.query dbNow).ahead j = fun other =>
      decide (j.createdAt ≤ other.createdAt) && other != j && other.state == .dead := by
  funext other
  simp only [Query.ahead, Scan.query, listJobs, Option.all_none, Option.all_some, Bool.true_and]
  rw [BEq.comm]

/-- The batch of a pass consists of stored dead jobs. -/
theorem promoteDeadJobs_batch {pass : Time × List (Job × Time)}
    (step : PromoteDeadJobs db pass db') {call : Job × Time} (listed : call ∈ pass.2) :
    db.jobs.find? call.1.id = some call.1 ∧ call.1.state = .dead := by
  obtain ⟨stored, hit⟩ := step.1.sound (List.mem_map_of_mem listed)
  simp only [Scan.query, listJobs, Option.all_none, Option.all_some, Bool.true_and,
    beq_iff_eq] at hit
  exact ⟨Table.mem_rows_iff.mp stored, hit.symm⟩

/-- A pass files just the jobs of its batch. -/
theorem promoteDeadJobs_isSome {pass : Time × List (Job × Time)}
    (step : PromoteDeadJobs db pass db') (k : UUID) :
    (db'.deadLetter.find? k).isSome = true ↔
      (db.deadLetter.find? k).isSome = true ∨ ∃ call ∈ pass.2, call.1.id = k := by
  rw [step.2]
  exact fileAll_isSome pass.2 db (fun call listed => promoteDeadJobs_batch step listed) k

/-- A pass leaves the jobs alone. -/
theorem promoteDeadJobs_jobs {pass : Time × List (Job × Time)}
    (step : PromoteDeadJobs db pass db') : db'.jobs = db.jobs := by
  rw [step.2]
  exact fileAll_jobs pass.2 db

/-- Every answer to the query makes a pass. -/
theorem promoteDeadJobs_of_answer (dbNow : Time) {batch : List Job}
    (answers : (Scan.promoteDeadJobs.query dbNow).Answers db.jobs.rows batch) :
    PromoteDeadJobs db (dbNow, batch.map fun j => (j, dbNow))
      (fileAll (batch.map fun j => (j, dbNow)) db) :=
  ⟨by simpa [Function.comp_def] using answers, rfl⟩

/-- The dead jobs that may be listed before a given one. -/
def deadAhead (db : Db) (j : Job) : Nat :=
  db.jobs.rows.countP fun other =>
    decide (j.createdAt ≤ other.createdAt) && other != j && other.state == .dead

/-- A dead job with a full batch ahead of it need never be filed. -/
theorem never_filed {j : Job} (stored : j ∈ db.jobs.rows) (dead : j.state = .dead)
    (unfiled : db.deadLetter.find? j.id = none) (crowd : deadLetterBatchSize ≤ deadAhead db j)
    (n : Nat) : ¬ After PromoteDeadJobs Filed n db := by
  -- Each pass may leave the job out, and leaves those ahead of it where they are.
  refine not_after (fun s => s.jobs = db.jobs ∧ ¬ (s.deadLetter.find? j.id).isSome = true) ?_ ?_ n
    ⟨rfl, by simp [unfiled]⟩
  · rintro s ⟨same, missing⟩ filed
    exact missing (filed j (same ▸ stored) dead)
  · rintro s ⟨same, missing⟩
    have hit : (Scan.promoteDeadJobs.query 0).holds j = true := by
      simp [Scan.query, listJobs, dead]
    obtain ⟨batch, answers, omitted⟩ := Query.exists_answer_without
      (q := Scan.promoteDeadJobs.query 0) (n := deadLetterBatchSize) rfl rfl stored hit
      (List.Nodup.of_map _ db.jobs.keyed) (Scan.before_total _ 0) (Scan.before_trans _ 0)
      (by rw [ahead_promoteDeadJobs]; exact crowd)
    have step := promoteDeadJobs_of_answer 0 (same ▸ answers)
    refine ⟨_, _, step, (promoteDeadJobs_jobs step).trans same, fun filed => ?_⟩
    rcases (promoteDeadJobs_isSome step j.id).mp filed with old | ⟨call, listed, named⟩
    · exact missing old
    · -- A call for the job would be one for the very row that is left out.
      obtain ⟨other, member, rfl⟩ := List.mem_map.mp listed
      have row := (answers.sound member).1
      exact omitted (Table.eq_of_key row stored named ▸ member)

/-- A dead job with less than a full batch ahead of it is filed by the next pass. -/
theorem filed_of_few (few : ∀ j ∈ db.jobs.rows, j.state = .dead →
    db.deadLetter.find? j.id = none → deadAhead db j < deadLetterBatchSize) :
    After PromoteDeadJobs Filed 1 db := by
  -- There is a pass at all, and every pass has room for the job in its batch.
  refine ⟨⟨_, _, promoteDeadJobs_of_answer 0 (Scan.run_answers _ 0 _)⟩, fun pass db' step => ?_⟩
  intro j stored dead
  rw [promoteDeadJobs_jobs step] at stored
  rw [promoteDeadJobs_isSome step]
  cases entry : db.deadLetter.find? j.id with
  | some entry => exact .inl rfl
  | none =>
    have hit : (Scan.promoteDeadJobs.query pass.1).holds j = true := by
      simp [Scan.query, listJobs, dead]
    have listed := step.1.listed_of_few (n := deadLetterBatchSize) rfl rfl stored hit
      (by rw [ahead_promoteDeadJobs]; exact few j stored dead entry)
    obtain ⟨call, member, rfl⟩ := List.mem_map.mp listed
    exact .inr ⟨call, member, rfl⟩

/--
Some number of passes files every dead job, exactly if each one that has no entry yet has less than
a full batch of dead jobs ahead of it.
-/
theorem dead_jobs_filed_iff (db : Db) :
    (∃ n, After PromoteDeadJobs Filed n db) ↔
      ∀ j ∈ db.jobs.rows, j.state = .dead → db.deadLetter.find? j.id = none →
        deadAhead db j < deadLetterBatchSize := by
  constructor
  · rintro ⟨n, filed⟩ j stored dead unfiled
    by_contra crowd
    exact never_filed stored dead unfiled (Nat.le_of_not_lt crowd) n filed
  · exact fun few => ⟨1, filed_of_few few⟩

/-- A dead job, created at the time that its number says. -/
def deadJob (i : Nat) : Job :=
  { submittedJob 7 .hook (BitVec.ofNat 128 i) i with state := .dead }

/-- More dead jobs than one batch holds. -/
def deadBacklog : Db :=
  { Db.empty with
    jobs := .numbered 201 deadJob
      (fun i small j small' => UUID.ofNat_inj (by omega) (by omega))
      fun i _ j _ u entry => by cases entry }

theorem dead_job_never_filed : ¬ ∀ db : Db, ∃ n, After PromoteDeadJobs Filed n db := by
  intro filed
  -- The oldest job has two hundred newer ones ahead of it.
  obtain ⟨n, after⟩ := filed deadBacklog
  have stored : deadJob 0 ∈ deadBacklog.jobs.rows := List.mem_map_of_mem (by simp)
  exact never_filed stored rfl rfl (by decide +kernel) n after

/-- Filing is the only call that writes the dead-letter table. -/
theorem apply_deadLetter (op : Op) (db : Db) :
    (op.apply db).deadLetter = db.deadLetter ∨
      ∃ jobID dbNow, op = .moveToDeadLetter jobID dbNow := by
  -- Whatever the outcome of the other calls, it concerns other tables.
  cases op with
  | moveToDeadLetter jobID dbNow => exact .inr ⟨jobID, dbNow, rfl⟩
  | insertJob j =>
    rcases insertJob_spec j db with ⟨jobs, -, -, done⟩ | ⟨e, done⟩ <;> simp [Op.apply, done]
  | tryClaim jobID workerID token deadline runID now =>
    rcases tryClaim_spec jobID workerID token deadline runID now db with
      ⟨row, -, -, done⟩ | ⟨-, done⟩ <;> simp [Op.apply, done]
  | completeJob jobID runID token now =>
    rcases completeJob_spec jobID runID token now db with ⟨row, -, -, done⟩ | ⟨-, done⟩
    · simp only [Op.apply, done, completeRun]
      split <;> exact .inl rfl
    · simp [Op.apply, done]
  | completeRun runID now =>
    simp only [Op.apply, completeRun]
    split <;> exact .inl rfl
  | failJob jobID runID token errMsg nextRunAt now =>
    rcases failJob_spec jobID runID token errMsg nextRunAt now db with
      ⟨row, -, -, jobRuns, -, done⟩ | done <;> simp [Op.apply, done]
  | requeueStaleJob jobID now dbNow =>
    rcases requeueStaleJob_spec jobID now dbNow db with
      ⟨-, done⟩ | ⟨jobRuns, -, ⟨row, -, -, done⟩ | ⟨-, done⟩⟩ <;> simp [Op.apply, done]
  | cancelJob jobID tenantID =>
    simp only [Op.apply, cancelJob]
    split <;> exact .inl rfl
  | replayJob jobID tenantID =>
    rcases replayJob_spec jobID tenantID db with ⟨row, -, -, done⟩ | done <;> simp [Op.apply, done]
  | cmdReplay jobID =>
    rcases cmdReplay_spec jobID db with ⟨row, -, -, done⟩ | ⟨e, done⟩ <;> simp [Op.apply, done]
  | cmdForceFail jobID =>
    simp only [Op.apply, cmdForceFail]
    split <;> exact .inl rfl
  | insertSchedule s =>
    simp only [Op.apply, insertSchedule]
    split <;> exact .inl rfl
  | deleteSchedule id tenantID =>
    simp only [Op.apply, deleteSchedule]
    split <;> exact .inl rfl
  | markRunning | extendDeadline | completeRow | promoteScheduledToPending | promoteFailedToPending
  | updateScheduleAfterRun => exact .inl rfl

/-- Whether a call finds a job in a state from which it takes the job to `dead`. -/
def Op.buries (jobID : UUID) (db : Db) : Op → Bool
  | failJob id _ token .. =>
    id == jobID && (db.jobs.find? id).any fun j =>
      owned id token j && decide (j.attempt + 1 ≥ j.maxRetries)
  | requeueStaleJob id _ dbNow =>
    id == jobID && (db.jobs.find? id).any fun j =>
      stale id dbNow j && decide (j.attempt + 1 ≥ j.maxRetries)
  | cmdForceFail id => id == jobID && (db.jobs.find? id).any (forceFailable id)
  | _ => false

/-- A job is dead after a call because it was just so before, or because the call buries it. -/
theorem dead_cases {op : Op} {k : UUID} {row : Job} (issued : op.Issued)
    (found : (op.apply db).jobs.find? k = some row) (dead : row.state = .dead) :
    db.jobs.find? k = some row ∨ op.buries k db = true := by
  -- Of all the ways in which a row can change, three end in this state.
  have step := apply_row op db k
  rw [found] at step
  generalize stored : db.jobs.find? k = old at step
  cases step with
  | keep => exact .inl rfl
  | insert =>
    -- New jobs are pending or scheduled.
    rcases issued with ⟨tenantID, req, id, now, rfl⟩ | ⟨sched, template, id, now, rfl⟩
    · by_cases delayed : req.delayed now = true <;>
        simp [Job.inserted, submittedJob, delayed] at dead
    · simp [Job.inserted, firedJob] at dead
  | @fail row _ token _ _ _ held live =>
    have named : row.id = k := Table.key_of_find? stored
    have last : row.attempt + 1 ≥ row.maxRetries := by
      by_contra more
      simp [failRow, failState, more] at dead
    exact .inr (by simp [Op.buries, stored, owned, named, held, live, last])
  | @requeue row _ _ late =>
    have named : row.id = k := Table.key_of_find? stored
    have last : row.attempt + 1 ≥ row.maxRetries := by
      by_contra more
      simp [requeueRow, more] at dead
    exact .inr (by simp [Op.buries, stored, stale, named, late, last])
  | @forceFail row unspared =>
    have named : row.id = k := Table.key_of_find? stored
    refine .inr ?_
    cases state : row.state <;> simp_all [Op.buries, forceFailable]
  | extend _ live =>
    -- A heartbeat only reaches jobs in flight.
    dsimp only at dead
    simp [dead, State.inFlight] at live
  | claim | start | complete | completeRow | promoteScheduled | promoteFailed | replay
  | cmdReplay => cases dead

/-- Whether a step takes a job to `dead` from elsewhere. -/
def entersDead (k : UUID) (e : Step Db Op) : Bool :=
  !((e.pre.jobs.find? k).any fun j => j.state == .dead) &&
    (e.post.jobs.find? k).any fun j => j.state == .dead

/-- Whether a step is a filing of the job. -/
def files (k : UUID) (e : Step Db Op) : Bool :=
  match e.label with
  | .moveToDeadLetter jobID _ => jobID == k
  | _ => false

/-- Entries stay. -/
theorem apply_keeps_entry (op : Op) {k : UUID} {entry : DeadLetter}
    (filed : db.deadLetter.find? k = some entry) :
    (op.apply db).deadLetter.find? k = some entry := by
  rcases apply_deadLetter op db with same | ⟨jobID, dbNow, rfl⟩
  · rw [same, filed]
  · simp only [Op.apply, moveToDeadLetter_find?, filed, Option.some_or]

/-- A dead job that has been filed since it died has an entry. -/
theorem filed_since {past : List (Step Db Op)} (run : Calls past db) {k : UUID} {row : Job}
    (found : db.jobs.find? k = some row) (dead : row.state = .dead)
    (filed : Since (fun e => entersDead k e = false) (fun e => files k e = true) past) :
    ∃ entry, db.deadLetter.find? k = some entry := by
  obtain ⟨earlier, e, later, rfl, filing, quiet⟩ := filed
  obtain ⟨-, ⟨-, made⟩, rest⟩ := run.at_step
  -- From the filing on, the job is not dead or has its entry.
  refine rest.along (fun s => ∀ row, s.jobs.find? k = some row → row.state = .dead →
    ∃ entry, s.deadLetter.find? k = some entry) ?_ ?_ row found dead
  · intro row found dead
    unfold files at filing
    split at filing
    · rename_i jobID dbNow label
      rw [made, label, beq_iff_eq.mp filing] at found ⊢
      simp only [Op.apply, moveToDeadLetter_jobs] at found
      have named : row.id = k := Table.key_of_find? found
      simp only [Op.apply, moveToDeadLetter_find?, found, Option.filter_some, dead, named]
      cases e.pre.deadLetter.find? k <;> simp
    · cases filing
  · rintro s op s' listed kept ⟨-, rfl⟩ row found dead
    -- The job was dead before, or else the step would have taken it there.
    have calm := quiet _ listed
    simp only [entersDead, found, dead, Option.any_some, beq_self_eq_true, Bool.and_true,
      Bool.not_eq_false', Option.any_eq_true, beq_iff_eq] at calm
    obtain ⟨old, stored, also⟩ := calm
    obtain ⟨entry, there⟩ := kept old stored also
    exact ⟨entry, apply_keeps_entry op there⟩

/-- The entry of a dead job, if it has one, says how the job died. -/
def Faithful (db : Db) : Prop :=
  ∀ k row entry, db.jobs.find? k = some row → row.state = .dead →
    db.deadLetter.find? k = some entry →
      entry.finalError = row.lastError ∧ entry.attemptCount = row.attempt

/-- Entries stay faithful as long as no job dies that has one. -/
theorem Faithful.step {op : Op} (faithful : Faithful db) (issued : op.Issued)
    (once : ∀ k, op.buries k db = true → db.deadLetter.find? k = none) :
    Faithful (op.apply db) := by
  intro k row entry found dead filed
  rcases apply_deadLetter op db with same | ⟨jobID, dbNow, rfl⟩
  · -- A job that has just died has no entry that could be wrong.
    rw [same] at filed
    rcases dead_cases issued found dead with stored | buried
    · exact faithful k row entry stored dead filed
    · rw [once k buried] at filed
      cases filed
  · -- A filing leaves the job alone, and a new entry is taken from the row itself.
    simp only [Op.apply, moveToDeadLetter_jobs, moveToDeadLetter_find?] at found filed
    rcases Option.or_eq_some_iff.mp filed with old | ⟨-, new⟩
    · exact faithful k row entry found dead old
    · obtain ⟨j, located, rfl⟩ := Option.map_eq_some_iff.mp new
      obtain ⟨stored, hit⟩ := Option.filter_eq_some_iff.mp located
      have own : j.id = k := by simpa using (Bool.and_eq_true_iff.mp hit).2
      rw [← Table.key_of_find? stored, own, found] at stored
      cases stored
      exact ⟨rfl, rfl⟩

/--
A dead job that has been filed since it last died has an entry with its last error and its attempts.

This holds in every run in which no job dies that already has an entry from an earlier death.
-/
theorem dead_letter_latest {past : List (Step Db Op)} (run : Calls past db)
    (once : ∀ e ∈ past, ∀ k, e.label.buries k e.pre = true → e.pre.deadLetter.find? k = none)
    {k : UUID} {row : Job} (found : db.jobs.find? k = some row) (dead : row.state = .dead)
    (filed : Since (fun e => entersDead k e = false) (fun e => files k e = true) past) :
    ∃ entry, db.deadLetter.find? k = some entry ∧ entry.finalError = row.lastError ∧
      entry.attemptCount = row.attempt := by
  -- The filing since the last death provides the entry, and every entry is faithful.
  have faithful : Faithful db := by
    refine run.along Faithful ?_ ?_
    · intro k row entry found
      cases found
    · rintro db op db' listed faithful ⟨issued, rfl⟩
      exact faithful.step issued (once _ listed)
  obtain ⟨entry, there⟩ := filed_since run found dead filed
  exact ⟨entry, there, faithful k row entry found dead there⟩

/-- A job dies of its only attempt. -/
def lastAttempt : List Op :=
  [.insertJob (submittedJob 7 { SubmitJobRequest.hook with
      maxRetries := some 1 } 1 0),
    .tryClaim 1 "w" 21 30 11 5, .failJob 1 11 21 "HTTP 500" none 9]

/-- The job is filed, replayed, and dies a second time, of another error. -/
def secondDeath : List Op :=
  lastAttempt ++ [.moveToDeadLetter 1 10, .replayJob 1 7, .tryClaim 1 "w" 22 40 12 15,
    .failJob 1 12 22 "HTTP 503" none 19]

theorem lastAttempt_issued : ∀ op ∈ lastAttempt ++ [.moveToDeadLetter 1 10], op.Issued := by
  simp only [lastAttempt, List.cons_append, List.nil_append, List.forall_mem_cons]
  exact ⟨.submitted _ _ _ _, trivial, trivial, trivial, by simp⟩

theorem dead_letter_latest_filed :
    ∃ row entry, (afterCalls (lastAttempt ++ [.moveToDeadLetter 1 10])).jobs.find? 1 = some row ∧
      (afterCalls (lastAttempt ++ [.moveToDeadLetter 1 10])).deadLetter.find? 1 = some entry ∧
      entry.finalError = row.lastError ∧ entry.attemptCount = row.attempt := by
  have once : ∀ e ∈ callTrace (lastAttempt ++ [.moveToDeadLetter 1 10]),
      ∀ k, e.label.buries k e.pre = true → e.pre.deadLetter.find? k = none := by
    intro e listed k _
    -- No entry is there before the last call.
    have empty : ∀ e ∈ callTrace (lastAttempt ++ [.moveToDeadLetter 1 10]),
        e.pre.deadLetter = .empty := by
      decide +kernel
    rw [empty e listed]
    rfl
  obtain ⟨entry, filed, same⟩ := dead_letter_latest (calls_callTrace lastAttempt_issued) once
    (k := 1) rfl rfl ⟨callTrace lastAttempt, _, [], rfl, rfl, by simp⟩
  exact ⟨_, entry, rfl, filed, same⟩

theorem dead_letter_outdated :
    ¬ ∀ (past : List (Step Db Op)) (db : Db), Calls past db → ∀ (k : UUID) (row : Job),
      db.jobs.find? k = some row → row.state = .dead →
        Since (fun e => entersDead k e = false) (fun e => files k e = true) past →
          ∃ entry, db.deadLetter.find? k = some entry ∧ entry.finalError = row.lastError ∧
            entry.attemptCount = row.attempt := by
  intro latest
  have issued : ∀ op ∈ secondDeath ++ [.moveToDeadLetter 1 20], op.Issued := by
    simp only [secondDeath, lastAttempt, List.cons_append, List.nil_append, List.forall_mem_cons]
    exact ⟨.submitted _ _ _ _, trivial, trivial, trivial, trivial, trivial, trivial, trivial,
      by simp⟩
  obtain ⟨entry, filed, error, -⟩ := latest _ _ (calls_callTrace issued) 1 _ rfl rfl
    ⟨callTrace secondDeath, _, [], rfl, rfl, by simp⟩
  -- The entry is still that of the first death.
  have old := congrArg (Option.map DeadLetter.finalError) filed
  rw [Option.map_some, error] at old
  exact absurd old (by decide +kernel)

end Sluice
