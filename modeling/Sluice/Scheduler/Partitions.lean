import Sluice.Calendar.Gregorian
import Sluice.Job.Model
import Sluice.Text.Decimal

/-! The monthly partitions of the run history, which the scheduler creates ahead of time. -/

namespace Sluice

open Calendar Text

/-- The day on which Unix time begins. -/
def unixDay : Int := 719162

/-- The date of an instant in universal time. -/
def utcDate (t : Time) : Date := .ofNumber (t / day + unixDay)

/-- `time.Date` in universal time, which carries months and days that are out of range. -/
def timeDate (year month dayOfMonth : Int) (clock : Time) : Time :=
  ((Month.of year month).firstDay + (dayOfMonth - 1) - unixDay) * day + clock

/-- `AddDate`. -/
def addDate (t : Time) (years months days : Int) : Time :=
  let d := utcDate t
  timeDate (d.month.year + years) (d.month.month + months) (d.day + days) (t % day)

/-- A partition of `job_runs`, which takes the runs from one date up to another. -/
structure Partition where
  name : String
  start : Date
  stop : Date
  deriving DecidableEq

/-- Two partitions that would both take some run. -/
def Partition.overlaps (p q : Partition) : Bool :=
  decide (p.start.number < q.stop.number) && decide (q.start.number < p.stop.number)

/-- Whether a date is in the range of a partition. -/
def Partition.holds (p : Partition) (d : Date) : Bool :=
  decide (p.start.number ≤ d.number) && decide (d.number < p.stop.number)

/-- The beginning of a date in universal time. -/
def midnight (d : Date) : Time := (d.number - unixDay) * day

/-- Whether a run goes to a partition, by the time at which it has started. -/
def Partition.takes (p : Partition) (startedAt : Time) : Bool :=
  decide (midnight p.start ≤ startedAt) && decide (startedAt < midnight p.stop)

abbrev Partitions := List Partition

/-- `CREATE TABLE IF NOT EXISTS`, which gives nothing where it is an error. -/
def Partitions.create (p : Partition) (ps : Partitions) : Option Partitions :=
  if ps.any fun q => q.name == p.name then some ps
  else if ps.any p.overlaps then none
  else some (p :: ps)

/-- `CREATE TABLE`, which is an error also where the name is taken. -/
def Partitions.createNew (p : Partition) (ps : Partitions) : Option Partitions :=
  if ps.any fun q => q.name == p.name then none else ps.create p

/-- The partition that `EnsureJobRunsPartition` asks for. -/
def jobRunsPartition (year month : Int) : Partition where
  name := "job_runs_" ++ zeroPadded 4 year ++ "_" ++ zeroPadded 2 month
  start := utcDate (timeDate year month 1 0)
  stop := utcDate (timeDate year (month + 1) 1 0)

/-- An integer within a date, where the sign does not count for the width. -/
def appendInt (width : Nat) (n : Int) : String :=
  if n < 0 then "-" ++ zeroPadded width (-n) else zeroPadded width n

/-- `Format` with the layout `2006-01-02`. -/
def formatDate (d : Date) : String :=
  appendInt 4 d.month.year ++ "-" ++ appendInt 2 d.month.month ++ "-" ++ appendInt 2 d.day

/-- How Postgres reads a date of that layout. -/
def readDate (text : String) : Option Date := do
  let (year, rest) ← readDigits 4 text.toList
  let rest ← readChar '-' rest
  let (month, rest) ← readDigits 2 rest
  let rest ← readChar '-' rest
  let (dayOfMonth, rest) ← readDigits 2 rest
  -- There is no year 0.
  guard (rest = [] ∧ 1 ≤ year)
  Date.of? year month dayOfMonth

/-- A statement that creates a partition, with the texts that it is filled in with. -/
structure PartitionStatement where
  name : String
  lower : String
  upper : String
  deriving DecidableEq

/-- The statement for a partition. -/
def Partition.statement (p : Partition) : PartitionStatement where
  name := p.name
  lower := formatDate p.start
  upper := formatDate p.stop

/-- The partition that Postgres makes of a statement, where it can read the bounds. -/
def PartitionStatement.partition (s : PartitionStatement) : Option Partition := do
  let start ← readDate s.lower
  let stop ← readDate s.upper
  return ⟨s.name, start, stop⟩

/-- The partitions with which the migration that introduces them begins. -/
def seedPartitions : List PartitionStatement :=
  [⟨"job_runs_2026_01", "2026-01-01", "2026-02-01"⟩,
   ⟨"job_runs_2026_02", "2026-02-01", "2026-03-01"⟩,
   ⟨"job_runs_2026_03", "2026-03-01", "2026-04-01"⟩,
   ⟨"job_runs_2026_04", "2026-04-01", "2026-05-01"⟩,
   ⟨"job_runs_2026_05", "2026-05-01", "2026-06-01"⟩,
   ⟨"job_runs_2026_06", "2026-06-01", "2026-07-01"⟩,
   ⟨"job_runs_2026_07", "2026-07-01", "2026-08-01"⟩,
   ⟨"job_runs_2026_08", "2026-08-01", "2026-09-01"⟩,
   ⟨"job_runs_2026_09", "2026-09-01", "2026-10-01"⟩,
   ⟨"job_runs_2026_10", "2026-10-01", "2026-11-01"⟩,
   ⟨"job_runs_2026_11", "2026-11-01", "2026-12-01"⟩,
   ⟨"job_runs_2026_12", "2026-12-01", "2027-01-01"⟩,
   ⟨"job_runs_2027_01", "2027-01-01", "2027-02-01"⟩]

/-- The partitions that the migration leaves, where its statements succeed. -/
def migratePartitions : Option Partitions :=
  seedPartitions.foldlM (fun ps s => s.partition.bind ps.createNew) []

/-- `EnsureJobRunsPartition`, whose statement may also fail for reasons of its own. -/
def ensureJobRunsPartition (year month : Int) (fails : Bool) (ps : Partitions) :
    Option Partitions :=
  if fails then none else ps.create (jobRunsPartition year month)

/-- What a pass logs about one month. -/
structure PartitionEntry where
  year : Int
  month : Int
  ok : Bool
  deriving DecidableEq

/-- The rounds of `ensurePartitions`, where an error only shows in the log. -/
def ensureMonths (now : Time) (fails : Int → Bool) :
    List Int → Partitions → Partitions × List PartitionEntry
  | [], ps => (ps, [])
  | i :: rest, ps =>
    let target := utcDate (addDate now 0 i 0)
    let year := target.month.year
    let month := target.month.month
    match ensureJobRunsPartition year month (fails i) ps with
    | none =>
      let (ps, entries) := ensureMonths now fails rest ps
      (ps, ⟨year, month, false⟩ :: entries)
    | some ps =>
      let (ps, entries) := ensureMonths now fails rest ps
      (ps, ⟨year, month, true⟩ :: entries)

def partitionLookaheadMonths : Nat := 3

/-- The months that a pass looks ahead, counted from the present one. -/
def lookahead : List Int := (List.range partitionLookaheadMonths).map fun i => i + 1

/-- `ensurePartitions`. -/
def ensurePartitions (now : Time) (fails : Int → Bool) (ps : Partitions) :
    Partitions × List PartitionEntry :=
  ensureMonths now fails lookahead ps

/-- `runPartitionMaintainer`, by the times of its passes and the statements that fail in each. -/
def runPartitionMaintainer (passes : List (Time × (Int → Bool))) (ps : Partitions) : Partitions :=
  passes.foldl (fun ps (now, fails) => (ensurePartitions now fails ps).1) ps

end Sluice
