import Sluice.Proofs.Storage.Specs

/-! Everything a storage call can do to one row of the schedules table. -/

namespace Sluice

open Relational

/-- The effect of a call on one schedule, with the condition it met before. -/
inductive ScheduleStep (k : UUID) : Op → Option Schedule → Option Schedule → Prop where
  | keep (op : Op) (row : Option Schedule) : ScheduleStep k op row row
  | insert {sched : Schedule} (named : sched.id = k) :
      ScheduleStep k (.insertSchedule sched) none (some sched.inserted)
  | delete {row : Schedule} {tenantID : UUID} :
      ScheduleStep k (.deleteSchedule k tenantID) (some row) none
  | update {row : Schedule} {lastRunAt nextRunAt : Time} :
      ScheduleStep k (.updateScheduleAfterRun k lastRunAt nextRunAt) (some row)
        (some { row with lastRunAt := some lastRunAt, nextRunAt })

/-- Every call changes each schedule in one of the listed ways, or not at all. -/
theorem apply_schedule (op : Op) (db : Db) (k : UUID) :
    ScheduleStep k op (db.schedules.find? k) ((op.apply db).schedules.find? k) := by
  -- Three calls write schedules, and each names the one it writes.
  cases op with
  | insertSchedule sched =>
    simp only [Op.apply, insertSchedule]
    split
    · exact .keep _ _
    · -- A stored row takes a key that was free.
      rename_i schedules stored
      have free := Table.find?_of_insert stored
      simp only [Table.find?_insert stored k]
      split
      · rename_i named
        rw [← named, free]
        exact .insert rfl
      · exact .keep _ _
  | deleteSchedule id tenantID =>
    simp only [Op.apply, deleteSchedule]
    split
    · exact .keep _ _
    · rcases Table.find?_delete_cases db.schedules
        (fun s => s.id == id && s.tenantID == tenantID) k with same | ⟨row, found, hit, gone⟩
      · simp only [same]
        exact .keep _ _
      · -- The deleted schedule is the one that the call names.
        have named : row.id = k := Table.key_of_find? found
        simp only [Bool.and_eq_true, beq_iff_eq] at hit
        simp only [gone, found]
        rw [← hit.1, named]
        exact .delete
  | updateScheduleAfterRun id lastRunAt nextRunAt =>
    simp only [Op.apply, updateScheduleAfterRun]
    rcases Table.find?_update_cases db.schedules (fun s => s.id == id)
      (fun s => { s with lastRunAt := some lastRunAt, nextRunAt }) (fun _ => ⟨rfl, rfl⟩) k with
      same | ⟨row, found, hit, after⟩
    · rw [same]
      exact .keep _ _
    · -- The update has no condition besides the identifier.
      have named : row.id = k := Table.key_of_find? found
      have same : id = k := (beq_iff_eq.mp hit).symm.trans named
      subst same
      rw [after, found]
      exact .update
  -- All other calls write the jobs, the runs, or the dead letters.
  | insertJob j =>
    rcases insertJob_spec j db with ⟨jobs, -, -, done⟩ | ⟨e, done⟩ <;>
      simp only [Op.apply, done] <;> exact .keep _ _
  | tryClaim jobID workerID token deadline runID now =>
    rcases tryClaim_spec jobID workerID token deadline runID now db with
      ⟨row, -, -, done⟩ | ⟨-, done⟩ <;> simp only [Op.apply, done] <;> exact .keep _ _
  | completeJob jobID runID token now =>
    rcases completeJob_spec jobID runID token now db with ⟨row, -, -, done⟩ | ⟨-, done⟩
    · simp only [Op.apply, done, completeRun]
      split <;> exact .keep _ _
    · simp only [Op.apply, done]
      exact .keep _ _
  | completeRun runID now =>
    simp only [Op.apply, completeRun]
    split <;> exact .keep _ _
  | failJob jobID runID token errMsg nextRunAt now =>
    rcases failJob_spec jobID runID token errMsg nextRunAt now db with
      ⟨row, -, -, jobRuns, -, done⟩ | done <;> simp only [Op.apply, done] <;> exact .keep _ _
  | requeueStaleJob jobID now dbNow =>
    rcases requeueStaleJob_spec jobID now dbNow db with
      ⟨-, done⟩ | ⟨jobRuns, -, ⟨row, -, -, done⟩ | ⟨-, done⟩⟩ <;>
      simp only [Op.apply, done] <;> exact .keep _ _
  | cancelJob jobID tenantID =>
    simp only [Op.apply, cancelJob]
    split <;> exact .keep _ _
  | replayJob jobID tenantID =>
    rcases replayJob_spec jobID tenantID db with ⟨row, -, -, done⟩ | done <;>
      simp only [Op.apply, done] <;> exact .keep _ _
  | moveToDeadLetter jobID dbNow =>
    simp only [Op.apply, moveToDeadLetter]
    split <;> exact .keep _ _
  | cmdReplay jobID =>
    rcases cmdReplay_spec jobID db with ⟨row, -, -, done⟩ | ⟨e, done⟩ <;>
      simp only [Op.apply, done] <;> exact .keep _ _
  | cmdForceFail jobID =>
    simp only [Op.apply, cmdForceFail]
    split <;> exact .keep _ _
  | markRunning | extendDeadline | completeRow | promoteScheduledToPending
  | promoteFailedToPending => exact .keep _ _

end Sluice
