import Sluice.Storage.Op

/-! What each storage call does, case by case, in terms of the row it addresses. -/

namespace Sluice

open Relational

/-- An insertion stores a row whose values fit their columns, or it fails without a trace. -/
theorem insertJob_spec (j : Job) (db : Db) :
    (∃ jobs, db.jobs.insert? j.inserted = some jobs ∧ fitsInt j.maxRetries = true ∧
      insertJob j db = (.ok (), { db with jobs })) ∨
    ∃ e, insertJob j db = (.error e, db) := by
  -- The three checks are made in the order of the definition.
  unfold insertJob
  split
  · exact .inr ⟨_, rfl⟩
  · rename_i fits
    split
    · exact .inr ⟨_, rfl⟩
    · cases stored : db.jobs.insert? j.inserted with
      | none => exact .inr ⟨_, rfl⟩
      | some jobs =>
        have limit := List.find?_eq_none.mp fits j.maxRetries (by simp)
        exact .inl ⟨jobs, rfl, by simpa using limit, rfl⟩

/-- An insertion that went well has stored the job. -/
theorem find?_of_insertJob {j : Job} {db : Db} (stored : (insertJob j db).1.isOk = true) :
    (insertJob j db).2.jobs.find? j.id = some j.inserted := by
  rcases insertJob_spec j db with ⟨jobs, inserted, -, done⟩ | ⟨e, failed⟩
  · rw [done]
    exact (Table.find?_insert inserted j.id).trans (if_pos rfl)
  · rw [failed] at stored
    cases stored

/-- An insertion that leaves a new row behind has succeeded. -/
theorem insertJob_isOk {j row : Job} {db : Db} {k : UUID} (absent : db.jobs.find? k = none)
    (stored : (insertJob j db).2.jobs.find? k = some row) : (insertJob j db).1.isOk = true := by
  rcases insertJob_spec j db with ⟨jobs, -, -, done⟩ | ⟨e, failed⟩
  · rw [done]
    rfl
  · rw [failed, absent] at stored
    cases stored

/-- A claim succeeds exactly on a pending row, which it takes over while it opens one run. -/
theorem tryClaim_spec (jobID : UUID) (workerID : String) (token : UUID) (deadline : Time)
    (runID : UUID) (now : Time) (db : Db) :
    (∃ row, db.jobs.find? jobID = some row ∧ row.state = .pending ∧
      tryClaim jobID workerID token deadline runID now db = (some runID,
        { db with
          jobs := db.jobs.update (fun j => j.id == jobID) (claimRow workerID token deadline now)
            fun _ => ⟨rfl, rfl⟩
          jobRuns := db.jobRuns ++ [openRun runID now row] })) ∨
    ((∀ row, db.jobs.find? jobID = some row → row.state ≠ .pending) ∧
      tryClaim jobID workerID token deadline runID now db = (none, db)) := by
  -- The locking read pins the key, so it returns the job's row if that row is pending.
  have read : db.jobs.select? (claimable jobID) =
      (db.jobs.find? jobID).filter (claimable jobID) :=
    Table.select?_of_key (by simp +contextual [claimable])
  cases found : db.jobs.find? jobID with
  | none =>
    right
    simp [tryClaim, read, found]
  | some row =>
    have named : row.id = jobID := Table.key_of_find? found
    by_cases waiting : row.state = .pending
    · left
      refine ⟨row, rfl, waiting, ?_⟩
      have hit : claimable jobID row = true := by simp [claimable, named, waiting]
      -- The inserted run copies columns that the claim has not written.
      simp only [tryClaim, read, found, Option.filter_some, hit, if_true]
      rw [Table.filter_key, Table.find?_update, found]
      simp [named, openRun, claimRow]
    · right
      refine ⟨fun other same => ?_, ?_⟩
      · cases same
        exact waiting
      · simp [tryClaim, read, found, Option.filter_some, claimable, waiting]

/-- A claim reports success exactly when the job's row is pending. -/
theorem tryClaim_isSome_iff (jobID : UUID) (workerID : String) (token : UUID) (deadline : Time)
    (runID : UUID) (now : Time) (db : Db) :
    (tryClaim jobID workerID token deadline runID now db).1.isSome = true ↔
      ∃ row, db.jobs.find? jobID = some row ∧ row.state = .pending := by
  -- The two outcomes of a claim exclude each other.
  rcases tryClaim_spec jobID workerID token deadline runID now db with
    ⟨row, found, waiting, done⟩ | ⟨refused, done⟩
  · rw [done]
    exact ⟨fun _ => ⟨row, found, waiting⟩, fun _ => rfl⟩
  · rw [done]
    refine ⟨fun success => absurd success (by simp), ?_⟩
    rintro ⟨row, found, waiting⟩
    exact absurd waiting (refused row found)

/-- A claim call that finds its job pending is a claim of that job. -/
theorem Op.claims_of_pending {jobID : UUID} {db : Db} {row : Job}
    (found : db.jobs.find? jobID = some row) (waiting : row.state = .pending) (workerID : String)
    (token : UUID) (deadline : Time) (runID : UUID) (now : Time) :
    (Op.tryClaim jobID workerID token deadline runID now).claims jobID db = true := by
  simp only [Op.claims, beq_self_eq_true, Bool.true_and]
  exact (tryClaim_isSome_iff jobID workerID token deadline runID now db).mpr ⟨row, found, waiting⟩

/-- A claim takes over a pending row, opens a run for it, and touches nothing else. -/
theorem Op.claims_inv {k : UUID} {op : Op} {db : Db} (claimed : op.claims k db = true) :
    ∃ workerID token deadline runID now row,
      op = .tryClaim k workerID token deadline runID now ∧
      db.jobs.find? k = some row ∧ row.state = .pending ∧
      (op.apply db).jobs.find? k = some (claimRow workerID token deadline now row) ∧
      (op.apply db).jobRuns = db.jobRuns ++ [openRun runID now row] := by
  -- Only `TryClaim` claims, and it reports success only in the first of its two outcomes.
  cases op with
  | tryClaim jobID workerID token deadline runID now =>
    simp only [claims, Bool.and_eq_true, beq_iff_eq] at claimed
    obtain ⟨rfl, success⟩ := claimed
    rcases tryClaim_spec jobID workerID token deadline runID now db with
      ⟨row, found, waiting, done⟩ | ⟨-, done⟩
    · refine ⟨_, _, _, _, _, row, rfl, found, waiting, ?_, ?_⟩
      · simp [apply, done, found, Table.key_of_find? found]
      · simp only [apply, done]
    · rw [done] at success
      cases success
  | _ => cases claimed

/-- The first statement of a completion affects the one row that carries the token, if any. -/
theorem completeRow_spec (jobID token : UUID) (now : Time) (db : Db) :
    (∃ row, db.jobs.find? jobID = some row ∧ owned jobID token row = true ∧
      (completeRow jobID token now db).1 = 1) ∨
    ((∀ row, db.jobs.find? jobID = some row → owned jobID token row = false) ∧
      completeRow jobID token now db = (0, db)) := by
  have pins : ∀ row : Job, owned jobID token row = true → row.id = jobID := by
    simp +contextual [owned]
  have count := Table.affected_of_key (t := db.jobs) pins
  by_cases hit : ∃ row, db.jobs.find? jobID = some row ∧ owned jobID token row = true
  · left
    obtain ⟨row, found, matched⟩ := hit
    refine ⟨row, found, matched, ?_⟩
    simp only [completeRow, count, found, Option.filter_some, matched]
    rfl
  · right
    -- Without a matching row nothing is counted and nothing is rewritten.
    have missed : ∀ row, db.jobs.find? jobID = some row → owned jobID token row = false := by
      intro row found
      by_contra other
      exact hit ⟨row, found, by simpa using other⟩
    have none_hit := Table.missed_of_key pins missed
    refine ⟨missed, ?_⟩
    unfold completeRow
    rw [Table.update_eq_self none_hit, Table.affected, List.countP_eq_zero.mpr]
    intro row stored
    simp [none_hit row stored]

/-- The second statement of a completion leaves the jobs table alone. -/
theorem completeRun_jobs (runID : UUID) (now : Time) (db : Db) :
    (completeRun runID now db).2.jobs = db.jobs := by
  -- It writes the runs, or nothing.
  unfold completeRun
  split <;> rfl

/--
A completion has two outcomes.

A stale caller changes nothing, and the owner's first statement is followed by the second.
-/
theorem completeJob_spec (jobID runID token : UUID) (now : Time) (db : Db) :
    (∃ row, db.jobs.find? jobID = some row ∧ owned jobID token row = true ∧
      completeJob jobID runID token now db =
        completeRun runID now (completeRow jobID token now db).2) ∨
    ((∀ row, db.jobs.find? jobID = some row → owned jobID token row = false) ∧
      completeJob jobID runID token now db = (.ok (), db)) := by
  -- The number of affected rows decides whether the second statement is sent.
  rcases completeRow_spec jobID token now db with ⟨row, found, matched, one⟩ | ⟨missed, zero⟩
  · left
    exact ⟨row, found, matched, by simp [completeJob, one]⟩
  · right
    exact ⟨missed, by simp [completeJob, zero]⟩

/-- A failure report with the current token fails the row and closes the run, or rolls back. -/
theorem failJob_spec (jobID runID token : UUID) (errMsg : String) (nextRunAt : Option Time)
    (now : Time) (db : Db) :
    (∃ row, db.jobs.find? jobID = some row ∧ owned jobID token row = true ∧
      ∃ jobRuns, updateRows? (fun run => run.id == runID)
          (JobRun.finish (failState (row.attempt + 1) row.maxRetries) now (some errMsg))
          db.jobRuns = some jobRuns ∧
        failJob jobID runID token errMsg nextRunAt now db = (.ok (),
          { db with
            jobs := db.jobs.update (fun j => j.id == jobID)
              (failRow row.attempt row.maxRetries errMsg nextRunAt) fun _ => ⟨rfl, rfl⟩
            jobRuns })) ∨
    (failJob jobID runID token errMsg nextRunAt now db).2 = db := by
  -- The locking read pins the key, so it returns the job's row if the caller owns it.
  have read : db.jobs.select? (owned jobID token) =
      (db.jobs.find? jobID).filter (owned jobID token) :=
    Table.select?_of_key (by simp +contextual [owned])
  cases found : db.jobs.find? jobID with
  | none => simp [failJob, read, found]
  | some row =>
    by_cases matched : owned jobID token row = true
    · -- With the row locked, only the statement on the runs can still fail.
      cases closed : updateRows? (fun run => run.id == runID)
          (JobRun.finish (failState (row.attempt + 1) row.maxRetries) now (some errMsg))
          db.jobRuns with
      | none => simp [failJob, read, found, Option.filter_some, matched, closed]
      | some jobRuns =>
        left
        exact ⟨row, rfl, matched, jobRuns, closed,
          by simp [failJob, read, found, Option.filter_some, matched, closed]⟩
    · simp [failJob, read, found, Option.filter_some, matched]

/-- A cancellation deletes the tenant's waiting job, or it finds none and changes nothing. -/
theorem cancelJob_spec (jobID tenantID : UUID) (db : Db) :
    (∃ row, db.jobs.find? jobID = some row ∧ cancellable jobID tenantID row = true ∧
      cancelJob jobID tenantID db =
        (.ok (), { db with jobs := db.jobs.delete (cancellable jobID tenantID) }) ∧
      (db.jobs.delete (cancellable jobID tenantID)).find? jobID = none) ∨
    ((∀ row, db.jobs.find? jobID = some row → cancellable jobID tenantID row = false) ∧
      cancelJob jobID tenantID db = (.error .notFound, db)) := by
  -- The count of affected rows is one or zero, since the condition names the job.
  have pins : ∀ row : Job, cancellable jobID tenantID row = true → row.id = jobID := by
    simp +contextual [cancellable]
  have count := Table.affected_of_key (t := db.jobs) pins
  cases found : db.jobs.find? jobID with
  | none =>
    right
    simp [cancelJob, count, found]
  | some row =>
    by_cases hit : cancellable jobID tenantID row = true
    · left
      exact ⟨row, rfl, hit, by simp [cancelJob, count, found, Option.filter_some, hit],
        by simp [found, hit]⟩
    · right
      simp [cancelJob, count, found, Option.filter_some, hit]

/-- A replay resets a dead row of the tenant, or it finds none and changes nothing. -/
theorem replayJob_spec (jobID tenantID : UUID) (db : Db) :
    (∃ row, db.jobs.find? jobID = some row ∧ replayable jobID tenantID row = true ∧
      replayJob jobID tenantID db = (.ok (replayRow row),
        { db with
          jobs := db.jobs.update (replayable jobID tenantID) replayRow fun _ => ⟨rfl, rfl⟩ })) ∨
    replayJob jobID tenantID db = (.error .notFound, db) := by
  -- The count of affected rows is one or zero, since the condition names the job.
  have pins : ∀ row : Job, replayable jobID tenantID row = true → row.id = jobID := by
    simp +contextual [replayable]
  have count := Table.affected_of_key (t := db.jobs) pins
  cases found : db.jobs.find? jobID with
  | none =>
    right
    simp [replayJob, count, found]
  | some row =>
    by_cases hit : replayable jobID tenantID row = true
    · left
      -- The final read finds the row just reset.
      exact ⟨row, rfl, hit, by simp [replayJob, count, found, Option.filter_some, hit]⟩
    · right
      simp [replayJob, count, found, Option.filter_some, hit]

/-- What a replay leaves of its job. -/
theorem replayJob_row (jobID tenantID : UUID) (db : Db) :
    (replayJob jobID tenantID db).2.jobs.find? jobID = (db.jobs.find? jobID).map fun row =>
      if replayable jobID tenantID row then replayRow row else row := by
  rcases replayJob_spec jobID tenantID db with ⟨row, -, -, done⟩ | done
  · rw [done, Table.find?_update]
  · -- A replay that found nothing would have found a row it may reset.
    have pins : ∀ row : Job, replayable jobID tenantID row = true → row.id = jobID := by
      simp +contextual [replayable]
    have count := Table.affected_of_key (t := db.jobs) pins
    rw [done]
    cases found : db.jobs.find? jobID with
    | none => rfl
    | some row =>
      cases hit : replayable jobID tenantID row with
      | false => simp [hit]
      | true => simp [replayJob, count, found, Option.filter_some, hit] at done

/-- The replay command resets a dead row, or it stops before it writes. -/
theorem cmdReplay_spec (jobID : UUID) (db : Db) :
    (∃ row, db.jobs.find? jobID = some row ∧ row.state = .dead ∧
      cmdReplay jobID db = (.ok row,
        { db with
          jobs := db.jobs.update (fun j => j.id == jobID && j.state == .dead) replayRow
            fun _ => ⟨rfl, rfl⟩ })) ∨
    ∃ e, cmdReplay jobID db = (.error e, db) := by
  -- The command looks at the job first and stops unless it is dead.
  cases found : db.jobs.find? jobID with
  | none =>
    right
    exact ⟨.getJob .notFound, by simp only [cmdReplay, found]⟩
  | some row =>
    by_cases dead : row.state = .dead
    · left
      exact ⟨row, rfl, dead, by simp [cmdReplay, found, dead]⟩
    · right
      exact ⟨.notDead row.state, by simp [cmdReplay, found, dead]⟩

/-- What the replay command leaves of its job. -/
theorem cmdReplay_row (jobID : UUID) (db : Db) :
    (cmdReplay jobID db).2.jobs.find? jobID = (db.jobs.find? jobID).map fun row =>
      if row.state = .dead then replayRow row else row := by
  cases found : db.jobs.find? jobID with
  | none => simp [cmdReplay, found]
  | some row =>
    have named := Table.key_of_find? found
    by_cases dead : row.state = .dead
    · simp [cmdReplay, found, dead, named]
    · simp [cmdReplay, found, dead]

/--
The reaper has three outcomes.

It rolls back, or it closes the open runs and finds no stale row, or it does both parts of its work.
-/
theorem requeueStaleJob_spec (jobID : UUID) (now dbNow : Time) (db : Db) :
    (updateRows? (openRunOf jobID) (JobRun.finish .failed now (some heartbeatExpired))
        db.jobRuns = none ∧
      requeueStaleJob jobID now dbNow db = (.error .outOfRange, db)) ∨
    ∃ jobRuns, updateRows? (openRunOf jobID) (JobRun.finish .failed now (some heartbeatExpired))
        db.jobRuns = some jobRuns ∧
      ((∃ row, db.jobs.find? jobID = some row ∧ row.expired dbNow = true ∧
          requeueStaleJob jobID now dbNow db = (.ok ((requeueRow row).state == .dead),
            { db with
              jobs := db.jobs.update (stale jobID dbNow) requeueRow fun _ => ⟨rfl, rfl⟩
              jobRuns })) ∨
        ((∀ row, db.jobs.find? jobID = some row → row.expired dbNow = false) ∧
          requeueStaleJob jobID now dbNow db = (.ok false, { db with jobRuns }))) := by
  -- The statement on the runs comes first, and only it can fail.
  cases closed : updateRows? (openRunOf jobID)
      (JobRun.finish .failed now (some heartbeatExpired)) db.jobRuns with
  | none =>
    exact .inl ⟨rfl, by simp [requeueStaleJob, closed]⟩
  | some jobRuns =>
    right
    refine ⟨jobRuns, rfl, ?_⟩
    -- The update pins the key, so it can only reach the job's own row.
    have read : db.jobs.select? (stale jobID dbNow) =
        (db.jobs.find? jobID).filter (stale jobID dbNow) :=
      Table.select?_of_key (by simp +contextual [stale])
    cases found : db.jobs.find? jobID with
    | none =>
      right
      simp [requeueStaleJob, closed, read, found]
    | some row =>
      have named : row.id = jobID := Table.key_of_find? found
      by_cases late : row.expired dbNow = true
      · left
        exact ⟨row, rfl, late,
          by simp [requeueStaleJob, closed, read, found, Option.filter_some, stale, named, late]⟩
      · right
        refine ⟨fun other same => ?_, ?_⟩
        · cases same
          simpa using late
        · simp [requeueStaleJob, closed, read, found, Option.filter_some, stale, late]

/-- A new schedule is stored unless its name or its identifier is taken. -/
theorem insertSchedule_spec (s : Schedule) (db : Db) :
    (∃ schedules, db.schedules.insert? s.inserted = some schedules ∧
      insertSchedule s db = (.ok (), { db with schedules })) ∨
    insertSchedule s db = (.error .duplicate, db) := by
  unfold insertSchedule
  cases stored : db.schedules.insert? s.inserted with
  | none => exact .inr rfl
  | some schedules => exact .inl ⟨schedules, rfl, rfl⟩

/-- A creation that leaves a new row behind has succeeded. -/
theorem insertSchedule_isOk {sched row : Schedule} {db : Db} {k : UUID}
    (absent : db.schedules.find? k = none)
    (stored : (insertSchedule sched db).2.schedules.find? k = some row) :
    (insertSchedule sched db).1.isOk = true := by
  rcases insertSchedule_spec sched db with ⟨schedules, -, done⟩ | failed
  · rw [done]
    rfl
  · rw [failed, absent] at stored
    cases stored

end Sluice
