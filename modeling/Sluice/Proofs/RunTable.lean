import Sluice.Proofs.Storage.Specs
import Sluice.Proofs.Tiling
import Sluice.Storage.RunTable

/-! The partitions hold what the storage calls have recorded, whenever they are created. -/

namespace Sluice

open Calendar Relational Transition

variable {past later : List (Step RunStore RunStoreAction)} {s s' : RunStore}

/-- What a call does to the recorded runs is what its statement does to them. -/
theorem Op.apply_jobRuns (op : Op) (db : Db) :
    (op.apply db).jobRuns =
      ((op.runStatement db).bind fun st => st.run db.jobRuns).getD db.jobRuns := by
  cases op with
  | tryClaim jobID workerID token deadline runID now =>
    simp only [Op.apply, Op.runStatement, Sluice.tryClaim]
    cases db.jobs.select? (claimable jobID) <;> rfl
  | completeJob jobID runID token now =>
    simp only [Op.apply, Op.runStatement, Sluice.completeJob]
    split
    · rfl
    · simp only [Sluice.completeRun, Sluice.completeRow, Option.bind_some, RunStatement.run]
      split <;> simp_all
  | completeRun runID now =>
    simp only [Op.apply, Op.runStatement, Sluice.completeRun, Option.bind_some, RunStatement.run]
    split <;> simp_all
  | failJob jobID runID token errMsg nextRunAt now =>
    simp only [Op.apply, Op.runStatement, Sluice.failJob]
    cases db.jobs.select? (owned jobID token) with
    | none => rfl
    | some row =>
      simp only [Option.map_some, Option.bind_some, RunStatement.run]
      split <;> simp_all
  | requeueStaleJob jobID now dbNow =>
    simp only [Op.apply, Op.runStatement, Sluice.requeueStaleJob, Option.bind_some,
      RunStatement.run]
    split
    · simp_all
    · split <;> simp_all
  | insertJob j =>
    simp only [Op.apply, Op.runStatement]
    rcases insertJob_spec j db with ⟨jobs, -, -, done⟩ | ⟨e, done⟩ <;> rw [done] <;> rfl
  | cancelJob jobID tenantID =>
    simp only [Op.apply, Op.runStatement, Sluice.cancelJob]
    split <;> rfl
  | replayJob jobID tenantID =>
    simp only [Op.apply, Op.runStatement]
    rcases replayJob_spec jobID tenantID db with ⟨row, -, -, done⟩ | done <;> rw [done] <;> rfl
  | moveToDeadLetter jobID dbNow =>
    simp only [Op.apply, Op.runStatement, Sluice.moveToDeadLetter]
    split <;> rfl
  | cmdReplay jobID =>
    simp only [Op.apply, Op.runStatement, Sluice.cmdReplay]
    split
    · rfl
    · split <;> rfl
  | cmdForceFail jobID =>
    simp only [Op.apply, Op.runStatement, Sluice.cmdForceFail]
    split <;> rfl
  | insertSchedule sched =>
    simp only [Op.apply, Op.runStatement, Sluice.insertSchedule]
    split <;> rfl
  | deleteSchedule id tenantID =>
    simp only [Op.apply, Op.runStatement, Sluice.deleteSchedule]
    split <;> rfl
  | markRunning | extendDeadline | completeRow | promoteScheduledToPending
  | promoteFailedToPending | updateScheduleAfterRun => rfl

/-- Runs that are inserted one after the other end up in the table. -/
theorem RunTable.contents_inserts (runs : List JobRun) (t : RunTable) :
    (runs.foldl Partitioned.insert t).contents = t.contents ++ runs ∧
      (runs.foldl Partitioned.insert t).parts = t.parts := by
  induction runs generalizing t with
  | nil => simp
  | cons run rest ih =>
    obtain ⟨contents, parts⟩ := ih (t.insert run)
    exact ⟨by simp [contents], parts⟩

/-- A statement does to the stored table what it does to one without partitions. -/
theorem RunStatement.contents_runOn (st : RunStatement) (t : RunTable) :
    (st.runOn t).map Partitioned.contents = st.run t.contents := by
  cases st with
  | insert runs => simp [runOn, run, RunTable.contents_inserts]
  | close => exact t.contents_update? _ _ JobRun.takesRun_finish

/-- No statement on the runs touches the partitions. -/
theorem RunStatement.parts_runOn {st : RunStatement} {t t' : RunTable}
    (done : st.runOn t = some t') : t'.parts = t.parts := by
  cases st with
  | insert runs =>
    cases done
    exact (RunTable.contents_inserts runs t).2
  | close =>
    unfold RunStatement.runOn at done
    exact Partitioned.parts_update? done

/-- What creating a partition leaves behind. -/
theorem RunTable.create_spec {p : Partition} {t t' : RunTable} (created : t.create p = some t') :
    t'.contents = t.contents ∧ Partitions.create p t.parts = some t'.parts := by
  unfold RunTable.create at created
  unfold Partitions.create
  split at created
  · rename_i named
    cases created
    exact ⟨rfl, if_pos named⟩
  · rename_i fresh
    split at created
    · cases created
    · rename_i apart
      obtain ⟨parts, rows⟩ := Partitioned.attach?_spec created
      rw [if_neg fresh, if_neg apart, parts, Partitioned.contents, rows]
      exact ⟨rfl, rfl⟩

/-- The stored table holds the recorded runs, and has the partitions of some months. -/
structure RunStore.Sound (s : RunStore) : Prop where
  contents : s.table.contents = s.db.jobRuns
  tiled : Tiled s.table.parts

namespace RunStore.Sound

/-- Every step keeps it so. -/
theorem step (sound : s.Sound) (a : RunStoreAction) : (s.step a).Sound := by
  cases a with
  | call op =>
    simp only [RunStore.step]
    cases called : op.runStatement s.db with
    | none =>
      refine ⟨?_, sound.tiled⟩
      rw [Op.apply_jobRuns, called]
      exact sound.contents
    | some st =>
      have same := st.contents_runOn s.table
      rw [sound.contents] at same
      cases done : st.runOn s.table with
      | none =>
        -- Both statements fail, and leave the runs as they were.
        rw [done] at same
        refine ⟨?_, by simpa [done] using sound.tiled⟩
        simp only [Op.apply_jobRuns, called, Option.bind_some, ← same, done]
        exact sound.contents
      | some table =>
        rw [done] at same
        refine ⟨?_, ?_⟩
        · simp only [Op.apply_jobRuns, called, Option.bind_some, ← same, done]
          rfl
        · simp only [Option.bind_some, done, Option.getD_some, RunStatement.parts_runOn done]
          exact sound.tiled
  | ensure m =>
    simp only [RunStore.step]
    cases created : s.table.create (jobRunsPartition m.year m.month) with
    | none => exact sound
    | some table =>
      obtain ⟨contents, parts⟩ := RunTable.create_spec created
      exact ⟨contents.trans sound.contents, sound.tiled.create parts⟩

/-- It holds throughout every run. -/
theorem of_run (run : RunStore.Reaches past s) : s.Sound := by
  refine Run.invariant run RunStore.Sound ⟨rfl, ⟨fun p listed => (nomatch listed), .nil⟩⟩ ?_
  rintro s a s' sound rfl
  exact sound.step a

end RunStore.Sound

/--
The partitions hold exactly the runs that the storage calls have recorded, and every statement on
`job_runs` succeeds or fails as it would without partitions, however the calls and the creation of
partitions interleave.
-/
theorem partitions_hold_runs (run : RunStore.Reaches past s) :
    s.table.contents = s.db.jobRuns ∧
      ∀ st : RunStatement, (st.runOn s.table).isSome = (st.run s.db.jobRuns).isSome := by
  have sound := RunStore.Sound.of_run run
  refine ⟨sound.contents, fun st => ?_⟩
  rw [← sound.contents, ← st.contents_runOn, Option.isSome_map]

/-- A job is submitted and claimed before the partition of its month is asked for. -/
def claimedEarly : List RunStoreAction :=
  [.call (.insertJob (submittedJob 7 .hook 1 0)),
    .call (.tryClaim 1 "w" 21 60 11 0), .ensure (.of 1970 1), .ensure (.of 1970 2)]

theorem reaches_claimedEarly : RunStore.Reaches (trace RunStore.step .empty claimedEarly)
    (claimedEarly.foldl RunStore.step .empty) :=
  run_trace fun _ listed => (mem_trace listed).2

theorem partitions_hold_runs_claimed :
    (claimedEarly.foldl RunStore.step .empty).table.contents =
      (claimedEarly.foldl RunStore.step .empty).db.jobRuns :=
  (partitions_hold_runs reaches_claimedEarly).1

/-- The creation of a month's partition fails only on runs of the month that are in the way. -/
theorem RunStore.Sound.create_eq_none_iff (sound : s.Sound) (m : Month) :
    s.table.create (monthPartition m) = none ↔
      monthPartition m ∉ s.table.parts ∧
        ∃ run ∈ s.db.jobRuns, (utcDate run.startedAt).month = m := by
  unfold RunTable.create
  by_cases there : monthPartition m ∈ s.table.parts
  · have named : (s.table.parts.any fun q => q.name == (monthPartition m).name) = true :=
      List.any_eq_true.mpr ⟨_, there, by simp⟩
    rw [if_pos named]
    simp [there]
  · have fresh := sound.tiled.name_free there
    -- No other month is in the way.
    have apart : ¬s.table.parts.any (monthPartition m).overlaps = true := by
      intro overlap
      obtain ⟨q, listed, overlap⟩ := List.any_eq_true.mp overlap
      obtain ⟨m', rfl⟩ := sound.tiled.monthly q listed
      rw [← eq_of_overlaps overlap] at listed
      exact there listed
    rw [if_neg fresh, dif_neg apart, Partitioned.attach?_eq_none_iff,
      Partitioned.blocks_iff (RunTable.free apart), sound.contents]
    simp only [Partition.takesRun, takes_eq_holds, monthPartition_holds, there, not_false_eq_true,
      true_and]

/-- No statement takes a run out of the table, or changes when it has started. -/
theorem RunStatement.startedAt_run {st : RunStatement} {runs runs' : List JobRun}
    (done : st.run runs = some runs') {run : JobRun} (listed : run ∈ runs) :
    ∃ run' ∈ runs', run'.startedAt = run.startedAt := by
  cases st with
  | insert new =>
    cases done
    exact ⟨run, List.mem_append_left _ listed, rfl⟩
  | close holds state now error =>
    have same : runs'.map JobRun.startedAt = runs.map JobRun.startedAt := by
      refine map_of_forall₂ (updateRows?_forall₂ done) fun old new change => ?_
      split at change
      · simp only [JobRun.finish, Option.map_eq_some_iff] at change
        obtain ⟨duration, -, rfl⟩ := change
        rfl
      · rw [change]
    have kept : run.startedAt ∈ runs'.map JobRun.startedAt := by
      rw [same]
      exact List.mem_map_of_mem listed
    exact List.mem_map.mp kept

/-- A run that a call finds in the table is still there afterwards. -/
theorem Op.startedAt_apply (op : Op) {db : Db} {run : JobRun} (listed : run ∈ db.jobRuns) :
    ∃ run' ∈ (op.apply db).jobRuns, run'.startedAt = run.startedAt := by
  rw [Op.apply_jobRuns]
  cases done : (op.runStatement db).bind fun st => st.run db.jobRuns with
  | none => exact ⟨run, listed, rfl⟩
  | some runs' =>
    obtain ⟨st, -, ran⟩ := Option.bind_eq_some_iff.mp done
    exact RunStatement.startedAt_run ran listed

/-- A month whose partition can no longer be created never gets one. -/
theorem RunStore.Sound.late_step (sound : s.Sound) (a : RunStoreAction) {m : Month}
    (late : s.table.create (monthPartition m) = none) :
    (s.step a).table.create (monthPartition m) = none := by
  rw [(sound.step a).create_eq_none_iff]
  obtain ⟨absent, run, listed, started⟩ := (sound.create_eq_none_iff m).mp late
  cases a with
  | call op =>
    obtain ⟨run', there, same⟩ := op.startedAt_apply listed
    refine ⟨?_, run', there, by rw [same, started]⟩
    simp only [RunStore.step]
    cases done : (op.runStatement s.db).bind fun st => st.runOn s.table with
    | none => exact absent
    | some table =>
      obtain ⟨st, -, ran⟩ := Option.bind_eq_some_iff.mp done
      rw [Option.getD_some, RunStatement.parts_runOn ran]
      exact absent
  | ensure m' =>
    refine ⟨?_, run, listed, started⟩
    simp only [RunStore.step]
    cases created : s.table.create (jobRunsPartition m'.year m'.month) with
    | none => exact absent
    | some table =>
      rw [Option.getD_some]
      intro there
      have made := (RunTable.create_spec created).2
      rcases (covers_create made).only _ there with old | ⟨other, member, new⟩
      · exact absent old
      · -- The statement for this very month has failed.
        have same : m = other := monthPartition_name_inj (congrArg Partition.name new)
        rw [← List.mem_singleton.mp member, ← same] at created
        exact absurd (created.symm.trans late) (by simp)

/--
The partition of a month cannot be created exactly if it is missing and a run of the month is
recorded, which is then in the default partition, and from then on it never can be.
-/
theorem partition_missed_iff (run : RunStore.Reaches past s) (m : Month) :
    (s.table.create (monthPartition m) = none ↔ monthPartition m ∉ s.table.parts ∧
      ∃ r ∈ s.db.jobRuns, (utcDate r.startedAt).month = m) ∧
    ∀ later s', Run (fun s a s' => s' = RunStore.step s a) s later s' →
      s.table.create (monthPartition m) = none → s'.table.create (monthPartition m) = none := by
  have sound := RunStore.Sound.of_run run
  refine ⟨sound.create_eq_none_iff m, fun later s' more late => ?_⟩
  refine (more.invariant (fun s => s.Sound ∧ s.table.create (monthPartition m) = none)
    ⟨sound, late⟩ ?_).2
  rintro s a s' ⟨sound, late⟩ rfl
  exact ⟨sound.step a, sound.late_step a late⟩

theorem partition_missed_iff_claimed :
    ((claimedEarly.foldl RunStore.step .empty).table.create (monthPartition (.of 1970 1)) = none) ∧
      monthPartition (.of 1970 1) ∉ (claimedEarly.foldl RunStore.step .empty).table.parts := by
  have missed : (claimedEarly.foldl RunStore.step .empty).table.create
      (monthPartition (.of 1970 1)) = none := Option.isNone_iff_eq_none.mp (by decide +kernel)
  exact ⟨missed, ((partition_missed_iff reaches_claimedEarly (.of 1970 1)).1.mp missed).1⟩

end Sluice
