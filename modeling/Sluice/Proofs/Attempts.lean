import Mathlib.Data.List.DropRight
import Sluice.Proofs.Consistency
import Sluice.Proofs.Storage.Runs

/-! Attempts are counted exactly, and a job is executed no more often than its limit allows. -/

namespace Sluice

open Relational Transition

/-- A step that neither inserts nor replays the job. -/
def continues (k : UUID) (e : Step Db Op) : Bool := !e.label.opens k e.pre

/-- The steps since the job was inserted or last replayed. -/
def epoch (k : UUID) (past : List (Step Db Op)) : List (Step Db Op) := past.rtakeWhile (continues k)

/-- How often the job was claimed in its current epoch. -/
def epochClaims (k : UUID) (past : List (Step Db Op)) : Nat :=
  (epoch k past).countP fun e => e.label.claims k e.pre

/-- How many runs were recorded when the current epoch began. -/
def epochStart (k : UUID) (past : List (Step Db Op)) : Nat :=
  match (past.rdropWhile (continues k)).getLast? with
  | none => 0
  | some e => e.post.jobRuns.length

/-- The job's runs recorded in its current epoch, oldest first. -/
def epochRuns (k : UUID) (past : List (Step Db Op)) (db : Db) : List JobRun :=
  (db.jobRuns.drop (epochStart k past)).filter fun run => run.jobID == k

/-- The attempt counter of a row agrees with the number of claims in its epoch. -/
structure Job.Accounted (j : Job) (claims : Nat) : Prop where
  waiting : j.state = .pending ∨ j.state = .scheduled ∨ j.state = .failed →
    (claims : Int) = j.attempt
  started : j.state = .claimed ∨ j.state = .running ∨ j.state = .succeeded →
    (claims : Int) = j.attempt + 1
  -- A job can die between attempts or in the middle of one.
  dead : j.state = .dead → (claims : Int) = j.attempt ∨ (claims : Int) = j.attempt + 1
  bounded : (claims : Int) ≤ max 1 j.maxRetries
  remaining : j.state ≠ .dead → j.attempt < max 1 j.maxRetries

section Epoch

variable {k : UUID} (past : List (Step Db Op)) {db : Db} {op : Op}

/-- An opening step starts an epoch without claims. -/
theorem epochClaims_open (opened : op.opens k db = true) :
    epochClaims k (past ++ [⟨db, op, op.apply db⟩]) = 0 := by
  -- The epoch is the longest end of the history without an opening step.
  rw [epochClaims, epoch, List.rtakeWhile_concat_neg _ _ _ (by simp [continues, opened])]
  rfl

/-- Any other step belongs to the epoch, and counts if it claimed the job. -/
theorem epochClaims_continue (same : op.opens k db = false) :
    epochClaims k (past ++ [⟨db, op, op.apply db⟩]) =
      epochClaims k past + if op.claims k db then 1 else 0 := by
  rw [epochClaims, epoch, List.rtakeWhile_concat_pos _ _ _ (by simp [continues, same]),
    List.countP_append, List.countP_singleton]
  rfl

/-- The runs of a fresh epoch begin behind all those recorded so far. -/
theorem epochStart_open (opened : op.opens k db = true) :
    epochStart k (past ++ [⟨db, op, op.apply db⟩]) = (op.apply db).jobRuns.length := by
  rw [epochStart, List.rdropWhile_concat_neg _ _ _ (by simp [continues, opened])]
  simp

/-- Any other step keeps the place where the epoch's runs begin. -/
theorem epochStart_continue (same : op.opens k db = false) :
    epochStart k (past ++ [⟨db, op, op.apply db⟩]) = epochStart k past := by
  rw [epochStart, List.rdropWhile_concat_pos _ _ _ (by simp [continues, same]), ← epochStart]

end Epoch

/-- A fresh start leaves the job waiting for its first attempt. -/
theorem Op.row_of_opens {k : UUID} {op : Op} {db : Db} (issued : op.Issued)
    (opened : op.opens k db = true) {row : Job}
    (stored : (op.apply db).jobs.find? k = some row) :
    (row.state = .pending ∨ row.state = .scheduled) ∧ row.attempt = 0 := by
  -- An insertion stores a submitted or fired job, and a replay resets the counter.
  cases op with
  | insertJob j =>
    simp only [opens, Bool.and_eq_true, beq_iff_eq] at opened
    obtain ⟨rfl, success⟩ := opened
    rcases insertJob_spec j db with ⟨jobs, inserted, -, done⟩ | ⟨e, done⟩
    · simp only [apply, done, Table.find?_insert inserted, Job.inserted, if_true,
        Option.some.injEq] at stored
      rw [← stored]
      exact issued.fresh
    · rw [done] at success
      cases success
  | replayJob jobID tenantID =>
    simp only [opens, Bool.and_eq_true, beq_iff_eq] at opened
    obtain ⟨rfl, success⟩ := opened
    rcases replayJob_spec jobID tenantID db with ⟨old, found, hit, done⟩ | done
    · simp only [apply, done, Table.find?_update, found, Option.map_some, hit, if_true,
        Option.some.injEq] at stored
      rw [← stored]
      exact ⟨.inl rfl, rfl⟩
    · rw [done] at success
      cases success
  | cmdReplay jobID =>
    simp only [opens, Bool.and_eq_true, beq_iff_eq] at opened
    obtain ⟨rfl, success⟩ := opened
    rcases cmdReplay_spec jobID db with ⟨old, found, dead, done⟩ | ⟨e, done⟩
    · simp only [apply, done, Table.find?_update, found, Option.map_some, dead,
        Table.key_of_find? found, beq_self_eq_true, Bool.and_self, if_true,
        Option.some.injEq] at stored
      rw [← stored]
      exact ⟨.inl rfl, rfl⟩
    · rw [done] at success
      cases success
  | _ => cases opened

/-- Insertions and replays that change the job's row are fresh starts. -/
theorem Op.opens_of_change {k : UUID} {op : Op} {db : Db}
    (restart : (∃ j, op = .insertJob j ∧ j.id = k) ∨ (∃ tenantID, op = .replayJob k tenantID) ∨
      op = .cmdReplay k)
    (changed : (op.apply db).jobs.find? k ≠ db.jobs.find? k) : op.opens k db = true := by
  -- Each of the three either reports success or leaves the database as it was.
  rcases restart with ⟨j, rfl, rfl⟩ | ⟨tenantID, rfl⟩ | rfl
  · rcases insertJob_spec j db with ⟨jobs, -, -, done⟩ | ⟨e, done⟩
    · simp [opens, done, Except.isOk, Except.toBool]
    · simp [apply, done] at changed
  · rcases replayJob_spec k tenantID db with ⟨row, -, -, done⟩ | done
    · simp [opens, done, Except.isOk, Except.toBool]
    · simp [apply, done] at changed
  · rcases cmdReplay_spec k db with ⟨row, -, -, done⟩ | ⟨e, done⟩
    · simp [opens, done, Except.isOk, Except.toBool]
    · simp [apply, done] at changed

/-- A replay changes the row it resets. -/
theorem replayRow_ne {row : Job} (dead : row.state = .dead) : replayRow row ≠ row := by
  -- The state alone tells the two apart.
  intro unchanged
  simpa [replayRow, dead] using congrArg Job.state unchanged

/-- The counter catches up with the claims when an attempt is lost, whatever the new state is. -/
theorem Job.Accounted.lost {old row : Job} {claims : Nat} (held : old.Accounted claims)
    (live : old.state = .claimed ∨ old.state = .running) (counted : row.attempt = old.attempt + 1)
    (limit : row.maxRetries = old.maxRetries)
    (left : row.state = .dead ∨
      (row.state = .pending ∨ row.state = .failed) ∧ row.attempt < row.maxRetries) :
    row.Accounted claims := by
  have claimed : (claims : Int) = row.attempt := by
    rw [counted]
    exact held.started (live.imp_right .inl)
  have bounded : (claims : Int) ≤ max 1 row.maxRetries := by
    rw [limit]
    exact held.bounded
  rcases left with dead | ⟨waits, more⟩
  · exact ⟨fun _ => claimed, by simp [dead], fun _ => .inl claimed, bounded, by simp [dead]⟩
  · refine ⟨fun _ => claimed, ?_, fun _ => .inl claimed, bounded, fun _ => by omega⟩
    rcases waits with state | state <;> simp [state]

/-- Within an epoch and between claims, no call upsets the accounts. -/
theorem Op.accounted_of_calm {k : UUID} {op : Op} {db : Db} (calm : op.claims k db = false)
    (same : op.opens k db = false) {claims : Nat}
    (held : ∀ row, db.jobs.find? k = some row → row.Accounted claims) :
    ∀ row, (op.apply db).jobs.find? k = some row → row.Accounted claims := by
  intro row stored
  have step := apply_row op db k
  generalize before : db.jobs.find? k = first at step
  generalize after : (op.apply db).jobs.find? k = last at step stored
  cases step with
  | keep => exact held row (before.trans stored)
  | insert named =>
    -- Insertions and replays that take effect open an epoch, which this call does not.
    have opened := Op.opens_of_change (.inl ⟨_, rfl, named⟩) (by rw [before, after]; simp)
    rw [same] at opened
    cases opened
  | replay dead =>
    have opened := Op.opens_of_change (.inr (.inl ⟨_, rfl⟩))
      (by rw [before, after]; simpa using replayRow_ne dead)
    rw [same] at opened
    cases opened
  | cmdReplay dead =>
    have opened := Op.opens_of_change (.inr (.inr rfl))
      (by rw [before, after]; simpa using replayRow_ne dead)
    rw [same] at opened
    cases opened
  | claim waiting =>
    rw [Op.claims_of_pending before waiting] at calm
    cases calm
  | cancel => cases stored
  | start _ fresh =>
    -- From here on the claims stay as they are, and only row and counter have to agree.
    cases stored
    obtain ⟨-, started, -, bounded, remaining⟩ := held _ before
    exact ⟨by simp, fun _ => started (.inl fresh), by simp, bounded,
      fun _ => remaining (by simp [fresh])⟩
  | extend =>
    cases stored
    obtain ⟨waiting, started, dead, bounded, remaining⟩ := held _ before
    exact ⟨waiting, started, dead, bounded, remaining⟩
  | complete _ live | completeRow _ live =>
    cases stored
    obtain ⟨-, started, -, bounded, remaining⟩ := held _ before
    rw [State.inFlight_iff] at live
    refine ⟨by simp [succeedRow], fun _ => started (live.imp_right .inl), by simp [succeedRow],
      bounded, fun _ => remaining ?_⟩
    rcases live with state | state <;> simp [state]
  | fail _ live =>
    cases stored
    rw [State.inFlight_iff] at live
    refine (held _ before).lost live rfl rfl ?_
    simp only [failRow, failState]
    split
    · exact .inl rfl
    · exact .inr ⟨.inr rfl, by omega⟩
  | requeue late =>
    -- A lost attempt counts like a failed one.
    cases stored
    simp only [Job.expired, Bool.and_eq_true, State.inFlight_iff] at late
    refine (held _ before).lost late.1 rfl rfl ?_
    simp only [requeueRow]
    split
    · exact .inl rfl
    · exact .inr ⟨.inl rfl, by omega⟩
  | promoteScheduled state =>
    cases stored
    obtain ⟨waiting, -, -, bounded, remaining⟩ := held _ before
    exact ⟨fun _ => waiting (.inr (.inl state)), by simp, by simp, bounded,
      fun _ => remaining (by simp [state])⟩
  | promoteFailed state =>
    cases stored
    obtain ⟨waiting, -, -, bounded, remaining⟩ := held _ before
    exact ⟨fun _ => waiting (.inr (.inr state)), by simp, by simp, bounded,
      fun _ => remaining (by simp [state])⟩
  | @forceFail old unspared =>
    -- Death leaves the count one ahead exactly when it interrupts an attempt.
    cases stored
    obtain ⟨waiting, started, -, bounded, -⟩ := held _ before
    refine ⟨by simp [forceFailRow], by simp [forceFailRow], fun _ => ?_, bounded,
      by simp [forceFailRow]⟩
    cases state : old.state with
    | pending => exact .inl (waiting (.inl state))
    | failed => exact .inl (waiting (.inr (.inr state)))
    | claimed => exact .inr (started (.inl state))
    | running => exact .inr (started (.inr (.inl state)))
    | scheduled => exact absurd state unspared.1
    | succeeded => exact absurd state unspared.2.1
    | dead => exact absurd state unspared.2.2

/-- The attempt numbers of a job's runs survive every change to the recorded runs. -/
theorem attempts_runStep {db : Db} {op : Op} (k : UUID) {runs runs' : List JobRun}
    (steps : List.Forall₂ (RunStep db op) runs runs') :
    (runs'.filter fun run => run.jobID == k).map JobRun.attempt =
      (runs.filter fun run => run.jobID == k).map JobRun.attempt := by
  induction steps with
  | nil => rfl
  | cons step _ ih =>
    -- Neither the owner nor the number of a run ever changes.
    obtain ⟨-, owner, number⟩ := step.identity
    rw [List.filter_cons, List.filter_cons, owner]
    split
    · rw [List.map_cons, List.map_cons, number, ih]
    · exact ih

/-- The accounts of one job: its row, its runs, and where the runs of its epoch begin. -/
structure Audited (k : UUID) (past : List (Step Db Op)) (db : Db) : Prop where
  row : ∀ row, db.jobs.find? k = some row → row.Accounted (epochClaims k past)
  runs : (epochRuns k past db).map JobRun.attempt =
    (List.range (epochClaims k past)).map Int.ofNat
  start : epochStart k past ≤ db.jobRuns.length

/-- A fresh start balances the accounts at zero. -/
theorem Audited.opens {k : UUID} (past : List (Step Db Op)) {db : Db} {op : Op}
    (issued : op.Issued) (opened : op.opens k db = true) :
    Audited k (past ++ [⟨db, op, op.apply db⟩]) (op.apply db) := by
  refine ⟨fun row stored => ?_, ?_, ?_⟩
  · rw [epochClaims_open past opened]
    obtain ⟨waiting, first⟩ := op.row_of_opens issued opened stored
    -- The row waits at attempt zero, so no claim is the right number.
    rcases waiting with state | state <;>
      exact ⟨by simp [first], by simp [state], by simp [state], by omega, by omega⟩
  · -- All recorded runs lie before the epoch.
    rw [epochRuns, epochStart_open past opened, epochClaims_open past opened]
    simp
  · exact (epochStart_open past opened).le

/-- A claim adds one to both accounts. -/
theorem Audited.claims {k : UUID} {past : List (Step Db Op)} {db : Db} {op : Op}
    (audited : Audited k past db) (same : op.opens k db = false)
    (claimed : op.claims k db = true) :
    Audited k (past ++ [⟨db, op, op.apply db⟩]) (op.apply db) := by
  -- The job was pending, so its counter is the number of claims and below the limit.
  obtain ⟨workerID, token, deadline, runID, now, row, rfl, found, waiting, after, grown⟩ :=
    Op.claims_inv claimed
  have count := epochClaims_continue past same
  rw [claimed, if_pos rfl] at count
  obtain ⟨due, -, -, -, remaining⟩ := audited.row row found
  have attempt := due (.inl waiting)
  have room := remaining (by simp [waiting])
  refine ⟨fun new stored => ?_, ?_, ?_⟩
  · -- The row goes from waiting to started while the count grows by one.
    rw [after, Option.some.injEq] at stored
    rw [← stored, count]
    refine ⟨by simp [claimRow], fun _ => ?_, by simp [claimRow], ?_, fun _ => room⟩ <;>
      simp only [claimRow] <;> omega
  · -- The new run stands last and carries the attempt number the row had.
    rw [epochRuns, epochStart_continue past same, count, grown,
      List.drop_append_of_le_length audited.start, List.filter_append, List.map_append,
      ← epochRuns, audited.runs, List.range_succ, List.map_append]
    simp [openRun, Table.key_of_find? found, attempt]
  · rw [epochStart_continue past same, grown, List.length_append]
    exact audited.start.trans (Nat.le_add_right _ _)

/-- Any other call leaves both accounts as they are. -/
theorem Audited.continues {k : UUID} {past : List (Step Db Op)} {db : Db} {op : Op}
    (audited : Audited k past db) (same : op.opens k db = false)
    (calm : op.claims k db = false) :
    Audited k (past ++ [⟨db, op, op.apply db⟩]) (op.apply db) := by
  have count := epochClaims_continue past same
  rw [calm, if_neg (by simp), Nat.add_zero] at count
  have start := epochStart_continue past same
  rcases apply_runs op db with
    ⟨jobID, _, _, _, _, _, row, rfl, found, waiting, grown⟩ | ⟨-, steps⟩
  · -- The claim must have been another job's, whose run the filter drops.
    have other : row.id ≠ k := by
      rintro rfl
      rw [Table.key_of_find? found, Op.claims_of_pending found waiting] at calm
      cases calm
    refine ⟨count ▸ Op.accounted_of_calm calm same audited.row, ?_, ?_⟩
    · rw [epochRuns, start, count, grown, List.drop_append_of_le_length audited.start,
        List.filter_append, ← epochRuns]
      simpa [openRun, other] using audited.runs
    · rw [start, grown, List.length_append]
      exact audited.start.trans (Nat.le_add_right _ _)
  · -- The runs are rewritten in place, and none changes its number.
    refine ⟨count ▸ Op.accounted_of_calm calm same audited.row, ?_, ?_⟩
    · rw [epochRuns, start, count, attempts_runStep k (List.forall₂_drop _ steps), ← epochRuns]
      exact audited.runs
    · rw [start, ← steps.length_eq]
      exact audited.start

/-- The accounts of every job balance in every reachable database. -/
theorem Calls.audited {past : List (Step Db Op)} {db : Db} (run : Calls past db) (k : UUID) :
    Audited k past db := by
  -- A step opens an epoch, claims the job within it, or does neither.
  refine run.history (Audited k) ?_ ?_
  · exact ⟨fun row found => (by cases found), rfl, Nat.le_refl 0⟩
  · rintro past db op db' - ih ⟨issued, rfl⟩
    cases opened : op.opens k db with
    | true => exact .opens past issued opened
    | false =>
      cases claimed : op.claims k db with
      | true => exact ih.claims opened claimed
      | false => exact ih.continues opened claimed

/-- The attempt counter of a stored job is never negative. -/
theorem Calls.attempt_nonneg {past : List (Step Db Op)} {db : Db} (run : Calls past db) (k : UUID) :
    ∀ row, db.jobs.find? k = some row → 0 ≤ row.attempt := by
  refine run.invariant (fun db => ∀ row, db.jobs.find? k = some row → 0 ≤ row.attempt) ?_ ?_
  · intro row found
    cases found
  · rintro db op db' held ⟨issued, rfl⟩ row stored
    have step := apply_row op db k
    rw [stored] at step
    generalize before : db.jobs.find? k = old at step
    cases step with
    | keep => exact held row before
    | insert =>
      -- Every job that is submitted or fired starts at zero.
      rcases issued with ⟨_, _, _, _, rfl⟩ | ⟨_, _, _, _, rfl⟩ <;> exact Int.le_refl 0
    | fail | requeue => exact Int.add_nonneg (held _ before) (by decide)
    | replay | cmdReplay => exact Int.le_refl 0
    | _ =>
      have nonneg := held _ before
      exact nonneg

/--
The attempt counter accounts for every claim of the job's epoch, and claims are bounded.

The runs recorded in the epoch are numbered from zero in the order of the claims.
-/
theorem calls_attempts_exact {past : List (Step Db Op)} {db : Db} (run : Calls past db)
    {row : Job} (stored : row ∈ db.jobs.rows) :
    row.Accounted (epochClaims row.id past) ∧
      (epochRuns row.id past db).map JobRun.attempt =
        (List.range (epochClaims row.id past)).map Int.ofNat := by
  have audited := run.audited row.id
  exact ⟨audited.row row (Table.mem_rows_iff.mp stored), audited.runs⟩

/-- A job that was replayed after it had used up its attempts, and then claimed twice. -/
def replayedLife : List Op :=
  claimedLife ++ [.failJob 1 11 21 "boom" (some 40) 9, .promoteFailedToPending 1 50,
    .cmdForceFail 1, .cmdReplay 1, .tryClaim 1 "w" 22 90 12 60, .requeueStaleJob 1 95 95,
    .tryClaim 1 "v" 23 130 13 100]

theorem replayedLife_issued : ∀ op ∈ replayedLife, op.Issued := by
  simp only [replayedLife, List.forall_mem_append, List.forall_mem_cons]
  exact ⟨claimedLife_issued, trivial, trivial, trivial, trivial, trivial, trivial, trivial,
    by simp⟩

theorem calls_attempts_exact_replayed :
    ∃ row ∈ (afterCalls replayedLife).jobs.rows, epochClaims row.id (callTrace replayedLife) = 2 ∧
      row.Accounted (epochClaims row.id (callTrace replayedLife)) ∧
      (epochRuns row.id (callTrace replayedLife) (afterCalls replayedLife)).map JobRun.attempt =
        (List.range (epochClaims row.id (callTrace replayedLife))).map Int.ofNat := by
  have one : (afterCalls replayedLife).jobs.rows.length = 1 := by decide +kernel
  obtain ⟨row, rows⟩ := List.length_eq_one_iff.mp one
  have stored : row ∈ (afterCalls replayedLife).jobs.rows := by simp [rows]
  have counted : ∀ row ∈ (afterCalls replayedLife).jobs.rows,
      epochClaims row.id (callTrace replayedLife) = 2 := by decide +kernel
  exact ⟨row, stored, counted row stored,
    calls_attempts_exact (calls_callTrace replayedLife_issued) stored⟩

end Sluice
