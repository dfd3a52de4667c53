import Sluice.Scheduler.Tasks

/-! The queries of the passes compare any two rows, so each of them has an answer. -/

namespace Sluice

open Relational

/-- Priorities and run times compare any two jobs. -/
theorem byPriority_total (a b : Job) : byPriority a b = true ∨ byPriority b a = true := by
  simp only [byPriority, Bool.or_eq_true, Bool.and_eq_true, decide_eq_true_eq, beq_iff_eq,
    Int16.lt_iff_toInt_lt, ← Int16.toInt_inj]
  lia

/-- The order by priority and run time is transitive. -/
theorem byPriority_trans (a b c : Job) (first : byPriority a b = true)
    (second : byPriority b c = true) : byPriority a c = true := by
  simp only [byPriority, Bool.or_eq_true, Bool.and_eq_true, decide_eq_true_eq, beq_iff_eq,
    Int16.lt_iff_toInt_lt, ← Int16.toInt_inj] at first second ⊢
  lia

/-- The order of a pass compares any two jobs. -/
theorem Scan.before_total (scan : Scan) (dbNow : Time) (a b : Job) :
    (scan.query dbNow).before a b = true ∨ (scan.query dbNow).before b a = true := by
  cases scan with
  | pollScheduledJobs | pollFailedJobs | reconcilePending => exact byPriority_total a b
  | reapStaleClaims => exact .inl rfl
  | promoteDeadJobs =>
    -- The newest come first, which compares creation times only.
    simpa only [Scan.query, listJobs, decide_eq_true_eq] using Int.le_total _ _

/-- The order of a pass is transitive. -/
theorem Scan.before_trans (scan : Scan) (dbNow : Time) (a b c : Job)
    (first : (scan.query dbNow).before a b = true)
    (second : (scan.query dbNow).before b c = true) : (scan.query dbNow).before a c = true := by
  cases scan with
  | pollScheduledJobs | pollFailedJobs | reconcilePending =>
    exact byPriority_trans a b c first second
  | reapStaleClaims => rfl
  | promoteDeadJobs =>
    simp only [Scan.query, listJobs, decide_eq_true_eq] at first second ⊢
    exact Int.le_trans second first

/-- The computed answer to a pass's query is one of its answers. -/
theorem Scan.run_answers (scan : Scan) (dbNow : Time) (rows : List Job) :
    (scan.query dbNow).Answers rows ((scan.query dbNow).run rows) :=
  Query.run_answers _ rows (scan.before_total dbNow) (scan.before_trans dbNow)

/-- The times at which schedules are due compare any two of them. -/
theorem getDueSchedules_total (limit : Nat) (dbNow : Time) (a b : Schedule) :
    (getDueSchedules limit dbNow).before a b = true ∨
      (getDueSchedules limit dbNow).before b a = true := by
  simpa only [getDueSchedules, decide_eq_true_eq] using Int.le_total _ _

/-- The order by the time at which schedules are due is transitive. -/
theorem getDueSchedules_trans (limit : Nat) (dbNow : Time) (a b c : Schedule)
    (first : (getDueSchedules limit dbNow).before a b = true)
    (second : (getDueSchedules limit dbNow).before b c = true) :
    (getDueSchedules limit dbNow).before a c = true := by
  simp only [getDueSchedules, decide_eq_true_eq] at first second ⊢
  exact Int.le_trans first second

/-- The computed list of due schedules is an answer to their query. -/
theorem getDueSchedules_run_answers (limit : Nat) (dbNow : Time) (rows : List Schedule) :
    (getDueSchedules limit dbNow).Answers rows ((getDueSchedules limit dbNow).run rows) :=
  Query.run_answers _ rows (getDueSchedules_total limit dbNow) (getDueSchedules_trans limit dbNow)

end Sluice
