import Sluice.Proofs.Lookahead

/-! What is left of the run history when the migrations are undone and made again. -/

namespace Sluice

open Calendar Relational Transition

variable {past : List (Step RunStore RunStoreAction)} {s : RunStore} {t t' : RunTable}

/-- A partition of an empty table fails only on the other partitions. -/
theorem RunTable.createNew_empty (empty : t.rows = []) (p : Partition) :
    (t.createNew p).map Partitioned.parts = Partitions.createNew p t.parts ∧
      ∀ t', t.createNew p = some t' → t'.rows = [] := by
  unfold RunTable.createNew Partitions.createNew RunTable.create Partitions.create
  split
  · simp
  · split
    · simp
    · rename_i apart
      have unblocked : t.blocks p = false := by simp [Partitioned.blocks, empty]
      cases made : t.attach? p (RunTable.free apart) with
      | none =>
        rw [Partitioned.attach?_eq_none_iff, unblocked] at made
        cases made
      | some t' =>
        obtain ⟨parts, rows⟩ := Partitioned.attach?_spec made
        refine ⟨by rw [Option.map_some, parts], ?_⟩
        rintro t'' ⟨⟩
        rw [rows, empty]

/-- So do several of them one after the other. -/
theorem RunTable.seeds_empty (seeds : List PartitionStatement) (empty : t.rows = []) :
    (seeds.foldlM RunTable.seed t).map Partitioned.parts =
        seeds.foldlM (fun (ps : Partitions) s => s.partition.bind ps.createNew) t.parts ∧
      ∀ t', seeds.foldlM RunTable.seed t = some t' → t'.rows = [] := by
  induction seeds generalizing t with
  | nil =>
    refine ⟨rfl, ?_⟩
    rintro t' ⟨⟩
    exact empty
  | cons seed rest ih =>
    simp only [List.foldlM_cons, RunTable.seed]
    cases read : seed.partition with
    | none => simp
    | some p =>
      obtain ⟨parts, rows⟩ := RunTable.createNew_empty empty p
      cases made : t.createNew p with
      | none =>
        rw [made, Option.map_none] at parts
        simp [made, ← parts]
      | some t' =>
        rw [made, Option.map_some] at parts
        simpa [made, ← parts] using ih (rows t' made)

theorem migratePartitions_eq :
    migratePartitions = some (seedMonths.reverse.map monthPartition) := by
  decide +kernel

/-- The migration begins with an empty partition for each of its months, and with no others. -/
theorem RunTable.exists_seeded : ∃ t, RunTable.seeded = some t ∧ t.rows = [] ∧
    ∀ run : JobRun, t.parts.any (fun p => p.takesRun run) = true ↔
      run.startMonth ∈ seedMonths := by
  obtain ⟨parts, rows⟩ := RunTable.seeds_empty seedPartitions (t := .empty) rfl
  have made : RunTable.seeded.map Partitioned.parts =
      some (seedMonths.reverse.map monthPartition) := parts.trans migratePartitions_eq
  obtain ⟨t, seeded, listed⟩ := Option.map_eq_some_iff.mp made
  refine ⟨t, seeded, rows t seeded, fun run => ?_⟩
  rw [listed, List.any_eq_true]
  constructor
  · rintro ⟨p, there, taken⟩
    obtain ⟨m, seed, rfl⟩ := List.mem_map.mp there
    rw [takesRun_monthPartition.mp taken]
    exact List.mem_reverse.mp seed
  · intro seed
    exact ⟨_, List.mem_map_of_mem (List.mem_reverse.mpr seed), takesRun_monthPartition.mpr rfl⟩

/-- Runs can be cut into partitions exactly if all of them are of the months of the migration. -/
theorem exists_partitionRuns_iff {runs : List JobRun} :
    (∃ t, partitionRuns runs = some t) ↔ ∀ run ∈ runs, run.startMonth ∈ seedMonths := by
  obtain ⟨seeds, seeded, -, takes⟩ := RunTable.exists_seeded
  simp only [partitionRuns, seeded, Option.bind_some, List.all_eq_true, takes]
  constructor
  · rintro ⟨t, made⟩
    split at made
    · assumption
    · cases made
  · exact fun within => ⟨_, if_pos within⟩

/-- No run is lost on the way into the partitions. -/
theorem contents_partitionRuns {runs : List JobRun} (made : partitionRuns runs = some t) :
    t.contents = runs := by
  obtain ⟨seeds, seeded, empty, -⟩ := RunTable.exists_seeded
  simp only [partitionRuns, seeded, Option.bind_some] at made
  split at made
  · cases made
    rw [(RunTable.contents_inserts runs seeds).1, Partitioned.contents, empty]
    rfl
  · cases made

/-- The runs that are left are those whose month has a partition. -/
theorem RunStore.Sound.inParts_eq (sound : s.Sound) :
    s.table.inParts = s.db.jobRuns.filter fun run =>
      decide (monthPartition run.startMonth ∈ s.table.parts) := by
  rw [Partitioned.inParts_eq, sound.contents]
  refine List.filter_congr fun run _ => ?_
  rw [Bool.eq_iff_iff, List.any_eq_true, decide_eq_true_iff]
  exact sound.taken_iff run

/-- Undoing the migrations copies what is in the partitions, where the old table can take it. -/
theorem RunStore.rollBack_eq_some_iff {rows : List JobRun} :
    s.rollBack = some rows ↔ rows = s.table.inParts ∧ (rows.map JobRun.id).Nodup ∧
      ∀ run ∈ rows, (s.db.jobs.find? run.jobID).isSome = true := by
  unfold RunStore.rollBack Db.unpartitionRuns
  constructor
  · intro undone
    split at undone
    · cases undone
      exact ⟨rfl, ‹_›⟩
    · cases undone
  · rintro ⟨rfl, restored⟩
    exact if_pos restored

/-- The runs of months whose partition was asked for before their first run. -/
def RunStore.timely (past : List (Step RunStore RunStoreAction)) (s : RunStore) : List JobRun :=
  s.db.jobRuns.filter fun r => decide (AskedInTime past r.startMonth)

/-- These are the ones that are in partitions. -/
theorem RunStore.inParts_eq_timely (run : RunStore.Reaches past s) :
    s.table.inParts = s.timely past := by
  rw [(RunStore.Sound.of_run run).inParts_eq]
  refine List.filter_congr fun r _ => ?_
  rw [decide_eq_decide]
  exact RunStore.Sound.mem_parts_iff run r.startMonth

/--
Undoing the migrations keeps the runs of months whose partition was asked for in time, and no
others, and fails exactly if two of these share an identifier or one has lost its job.

Making them again restores the whole history exactly if all runs are of such months and of those
that the migration begins with, have identifiers of their own, and still have their jobs.
-/
theorem rolled_back_iff (run : RunStore.Reaches past s) :
    (s.rollBack = if ((s.timely past).map JobRun.id).Nodup ∧ ∀ r ∈ s.timely past,
        (s.db.jobs.find? r.jobID).isSome = true then some (s.timely past) else none) ∧
    ((∃ t, s.rollBack.bind partitionRuns = some t ∧ t.contents = s.db.jobRuns) ↔
      (s.db.jobRuns.map JobRun.id).Nodup ∧ ∀ r ∈ s.db.jobRuns,
        AskedInTime past r.startMonth ∧ r.startMonth ∈ seedMonths ∧
          (s.db.jobs.find? r.jobID).isSome = true) := by
  have kept := RunStore.inParts_eq_timely run
  have whole : s.table.inParts = s.db.jobRuns ↔
      ∀ r ∈ s.db.jobRuns, AskedInTime past r.startMonth := by
    rw [kept, RunStore.timely, List.filter_eq_self]
    simp only [decide_eq_true_iff]
  refine ⟨?_, ?_, ?_⟩
  · rw [RunStore.rollBack, Db.unpartitionRuns, kept]
  · rintro ⟨t, made, same⟩
    obtain ⟨rows, undone, made⟩ := Option.bind_eq_some_iff.mp made
    -- Nothing was lost, so the copy holds all runs.
    obtain rfl : rows = s.db.jobRuns := (contents_partitionRuns made).symm.trans same
    obtain ⟨all, distinct, stored⟩ := RunStore.rollBack_eq_some_iff.mp undone
    have within := exists_partitionRuns_iff.mp ⟨t, made⟩
    exact ⟨distinct, fun r listed =>
      ⟨whole.mp all.symm r listed, within r listed, stored r listed⟩⟩
  · rintro ⟨distinct, fit⟩
    have undone : s.rollBack = some s.db.jobRuns :=
      RunStore.rollBack_eq_some_iff.mpr ⟨(whole.mpr fun r listed => (fit r listed).1).symm,
        distinct, fun r listed => (fit r listed).2.2⟩
    obtain ⟨t, made⟩ := exists_partitionRuns_iff.mpr fun r listed => (fit r listed).2.1
    exact ⟨t, by rw [undone, Option.bind_some, made], contents_partitionRuns made⟩

/-- The run of a month without a partition is lost without an error. -/
theorem rolled_back_iff_claimed :
    (claimedEarly.foldl RunStore.step .empty).db.jobRuns.length = 1 ∧
      (claimedEarly.foldl RunStore.step .empty).rollBack = some [] ∧
      ¬∃ t, (claimedEarly.foldl RunStore.step .empty).rollBack.bind partitionRuns = some t ∧
        t.contents = (claimedEarly.foldl RunStore.step .empty).db.jobRuns := by
  refine ⟨by decide +kernel, ?_, ?_⟩
  · rw [(rolled_back_iff reaches_claimedEarly).1]
    decide +kernel
  · have outside : ¬∀ r ∈ (claimedEarly.foldl RunStore.step .empty).db.jobRuns,
        r.startMonth ∈ seedMonths := by decide +kernel
    rw [(rolled_back_iff reaches_claimedEarly).2]
    exact fun fit => outside fun r listed => (fit.2 r listed).2.1

end Sluice
