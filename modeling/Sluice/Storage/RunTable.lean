import Sluice.Relational.Partitioned
import Sluice.Scheduler.Partitions
import Sluice.Storage.Statements

/-! `job_runs` as it is stored, in monthly partitions, and the migrations there and back. -/

namespace Sluice

open Calendar Relational Transition

/-- Whether a run goes to a partition. -/
def Partition.takesRun (p : Partition) (run : JobRun) : Bool := p.takes run.startedAt

/-- `job_runs` after the migrations. -/
abbrev RunTable := Partitioned Partition.takesRun

/-- Partitions that do not overlap have no run in common. -/
theorem Partition.disjoint_of_overlaps {p q : Partition} (apart : ¬p.overlaps q = true)
    (run : JobRun) : ¬(p.takesRun run = true ∧ q.takesRun run = true) := by
  rintro ⟨taken, taken'⟩
  obtain ⟨began, before⟩ := Bool.and_eq_true_iff.mp taken
  obtain ⟨began', before'⟩ := Bool.and_eq_true_iff.mp taken'
  replace began := of_decide_eq_true began
  replace before := of_decide_eq_true before
  replace began' := of_decide_eq_true began'
  replace before' := of_decide_eq_true before'
  -- Each of them begins before the other one ends.
  simp only [Partition.overlaps, Bool.and_eq_true, decide_eq_true_eq] at apart
  simp only [midnight, day, minute, second] at began before began' before'
  exact apart ⟨by lia, by lia⟩

theorem RunTable.free {t : RunTable} {p : Partition} (apart : ¬t.parts.any p.overlaps = true) :
    ∀ q ∈ t.parts, ∀ run, ¬(p.takesRun run = true ∧ q.takesRun run = true) :=
  fun q listed => Partition.disjoint_of_overlaps fun overlap =>
    apart (List.any_eq_true.mpr ⟨q, listed, overlap⟩)

/-- `CREATE TABLE IF NOT EXISTS … PARTITION OF job_runs`. -/
def RunTable.create (p : Partition) (t : RunTable) : Option RunTable :=
  if t.parts.any fun q => q.name == p.name then some t
  else if overlap : t.parts.any p.overlaps = true then none
  else t.attach? p (RunTable.free overlap)

/-- A statement on `job_runs`. -/
inductive RunStatement where
  | insert (runs : List JobRun)
  | close (holds : JobRun → Bool) (state : State) (now : Time) (error : JobRun → Option String)

/--
The statement on `job_runs` that a call makes on a database, if it comes to it.

A statement that fails takes the rest of its transaction with it.
-/
def Op.runStatement (db : Db) : Op → Option RunStatement
  | tryClaim jobID workerID token deadline runID now =>
    (db.jobs.select? (claimable jobID)).map fun _ =>
      let jobs := db.jobs.update (fun j => j.id == jobID) (claimRow workerID token deadline now)
        (claimRow_keeps workerID token deadline now)
      .insert ((jobs.rows.filter fun j => j.id == jobID).map (openRun runID now))
  | completeJob jobID runID token now =>
    if (Sluice.completeRow jobID token now db).1 == 0 then none
    else some (.close (fun run => run.id == runID) .succeeded now JobRun.error)
  | completeRun runID now => some (.close (fun run => run.id == runID) .succeeded now JobRun.error)
  | failJob jobID runID token errMsg _ now =>
    (db.jobs.select? (owned jobID token)).map fun row =>
      .close (fun run => run.id == runID) (failState (row.attempt + 1) row.maxRetries) now
        fun _ => some errMsg
  | requeueStaleJob jobID now _ =>
    some (.close (openRunOf jobID) .failed now fun _ => some heartbeatExpired)
  | _ => none

/-- What a statement does to a table without partitions. -/
def RunStatement.run : RunStatement → List JobRun → Option (List JobRun)
  | insert runs, table => some (table ++ runs)
  | close holds state now error, table =>
    updateRows? holds (fun run => run.finish state now (error run)) table

/-- Closing a run leaves the time at which it has started. -/
theorem JobRun.takesRun_finish {state : State} {now : Time} {error : JobRun → Option String}
    (run new : JobRun) (closed : run.finish state now (error run) = some new) (p : Partition) :
    p.takesRun new = p.takesRun run := by
  simp only [JobRun.finish, Option.map_eq_some_iff] at closed
  obtain ⟨duration, -, rfl⟩ := closed
  rfl

/-- What a statement does to the table as it is stored. -/
def RunStatement.runOn : RunStatement → RunTable → Option RunTable
  | insert runs, t => some (runs.foldl Partitioned.insert t)
  | close holds state now error, t =>
    t.update? holds (fun run => run.finish state now (error run)) JobRun.takesRun_finish

/-- The tables as the storage calls see them, and `job_runs` as it is stored. -/
structure RunStore where
  db : Db
  table : RunTable

/-- Empty tables, with nothing but the default partition. -/
def RunStore.empty : RunStore := ⟨.empty, .empty⟩

/-- A storage call, or a statement of a migration or a pass that asks for a month's partition. -/
inductive RunStoreAction where
  | call (op : Op)
  | ensure (m : Month)

/-- What a step does, where a statement that fails leaves all as it was. -/
def RunStore.step (s : RunStore) : RunStoreAction → RunStore
  | .call op =>
    ⟨op.apply s.db, ((op.runStatement s.db).bind fun st => st.runOn s.table).getD s.table⟩
  | .ensure m => { s with table := (s.table.create (jobRunsPartition m.year m.month)).getD s.table }

/-- The runs of storage calls, with partitions created in between. -/
def RunStore.Reaches (past : List (Step RunStore RunStoreAction)) (s : RunStore) : Prop :=
  Run (fun s a s' => s' = s.step a) RunStore.empty past s

/-- `CREATE TABLE … PARTITION OF job_runs`, which is an error also where the name is taken. -/
def RunTable.createNew (p : Partition) (t : RunTable) : Option RunTable :=
  if t.parts.any fun q => q.name == p.name then none else t.create p

/-- A statement that creates a partition. -/
def RunTable.seed (t : RunTable) (s : PartitionStatement) : Option RunTable :=
  s.partition.bind t.createNew

/-- The table with the partitions that it begins with. -/
def RunTable.seeded : Option RunTable := seedPartitions.foldlM RunTable.seed .empty

/--
The copy of `job_runs` into its partitions.

There is no default partition yet, so a run of any other month is an error.
-/
def partitionRuns (runs : List JobRun) : Option RunTable :=
  RunTable.seeded.bind fun t =>
    if runs.all fun run => t.parts.any fun p => p.takesRun run then
      some (runs.foldl Partitioned.insert t)
    else none

/-- `job_runs` after the default partition is dropped and the partitions are undone. -/
def RunStore.rollBack (s : RunStore) : Option (List JobRun) :=
  { s.db with jobRuns := s.table.inParts }.unpartitionRuns

end Sluice
