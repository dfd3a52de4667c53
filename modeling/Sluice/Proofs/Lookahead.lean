import Sluice.Proofs.RunTable

/-! When no run ever gets into the default partition. -/

namespace Sluice

open Calendar Relational Transition

variable {past : List (Step RunStore RunStoreAction)} {s s' : RunStore}

/-- The month in which a run has started. -/
def JobRun.startMonth (run : JobRun) : Month := (utcDate run.startedAt).month

/-- The partition of a month takes the runs of that month. -/
theorem takesRun_monthPartition {m : Month} {run : JobRun} :
    (monthPartition m).takesRun run = true ↔ run.startMonth = m := by
  rw [Partition.takesRun, takes_eq_holds, monthPartition_holds, JobRun.startMonth]

/-- The partition of a month was asked for before any run of the month was recorded. -/
def AskedInTime (past : List (Step RunStore RunStoreAction)) (m : Month) : Prop :=
  ∃ e ∈ past, e.label = .ensure m ∧ ∀ run ∈ e.pre.db.jobRuns, run.startMonth ≠ m

instance (a : RunStoreAction) (m : Month) : Decidable (a = .ensure m) :=
  match a with
  | .ensure m' => decidable_of_iff (m' = m) (by simp)
  | .call _ => .isFalse (by simp)

instance (past : List (Step RunStore RunStoreAction)) (m : Month) :
    Decidable (AskedInTime past m) :=
  inferInstanceAs (Decidable (∃ e ∈ past, _))

theorem AskedInTime.snoc_iff {m : Month} {e : Step RunStore RunStoreAction} :
    AskedInTime (past ++ [e]) m ↔ AskedInTime past m ∨
      e.label = .ensure m ∧ ∀ run ∈ e.pre.db.jobRuns, run.startMonth ≠ m := by
  simp [AskedInTime, or_and_right, exists_or]

/-- No call touches the partitions. -/
theorem RunStore.parts_call (s : RunStore) (op : Op) :
    (s.step (.call op)).table.parts = s.table.parts := by
  simp only [RunStore.step]
  cases done : (op.runStatement s.db).bind fun st => st.runOn s.table with
  | none => rfl
  | some table =>
    obtain ⟨st, -, ran⟩ := Option.bind_eq_some_iff.mp done
    exact RunStatement.parts_runOn ran

namespace RunStore.Sound

/-- A statement adds the partition of its month, unless that is too late. -/
theorem mem_parts_ensure (sound : s.Sound) (m m' : Month) :
    monthPartition m ∈ (s.step (.ensure m')).table.parts ↔
      monthPartition m ∈ s.table.parts ∨
        m' = m ∧ ∀ run ∈ s.db.jobRuns, run.startMonth ≠ m := by
  have fails := sound.create_eq_none_iff m'
  simp only [RunStore.step]
  change _ ∈ ((s.table.create (monthPartition m')).getD s.table).parts ↔ _
  cases created : s.table.create (monthPartition m') with
  | none =>
    -- A run of the month is in the way.
    obtain ⟨-, run, listed, late⟩ := fails.mp created
    refine ⟨.inl, fun h => h.resolve_right ?_⟩
    rintro ⟨rfl, early⟩
    exact early run listed late
  | some table =>
    have made := (RunTable.create_spec created).2
    constructor
    · intro there
      rcases (covers_create made).only _ there with old | ⟨m'', member, new⟩
      · exact .inl old
      · have same : m = m' :=
          (monthPartition_name_inj (congrArg Partition.name new)).trans
            (List.mem_singleton.mp member)
        subst same
        by_cases old : monthPartition m ∈ s.table.parts
        · exact .inl old
        · -- The statement has succeeded, so nothing was in the way.
          refine .inr ⟨rfl, fun run listed late => ?_⟩
          rw [fails.mpr ⟨old, run, listed, late⟩] at created
          cases created
    · rintro (old | ⟨rfl, -⟩)
      · exact (covers_create made).kept _ old
      · obtain ⟨p, there, named⟩ := (covers_create made).present m' (List.mem_singleton_self m')
        obtain ⟨m, rfl⟩ := (sound.tiled.create made).monthly p there
        rw [← monthPartition_name_inj named]
        exact there

/-- The partitions are those of the months that were asked for in time. -/
theorem mem_parts_iff (run : RunStore.Reaches past s) (m : Month) :
    monthPartition m ∈ s.table.parts ↔ AskedInTime past m := by
  refine Run.history run (fun past s => monthPartition m ∈ s.table.parts ↔ AskedInTime past m)
    ?_ ?_
  · simp [RunStore.empty, Partitioned.empty, AskedInTime]
  · rintro past s a s' before ih rfl
    rw [AskedInTime.snoc_iff, ← ih]
    cases a with
    | call op =>
      rw [s.parts_call op]
      simp
    | ensure m' =>
      rw [(RunStore.Sound.of_run before).mem_parts_ensure]
      simp

/-- A run is in one of the partitions exactly if its month has one. -/
theorem taken_iff (sound : s.Sound) (run : JobRun) :
    (∃ p ∈ s.table.parts, p.takesRun run = true) ↔
      monthPartition run.startMonth ∈ s.table.parts := by
  constructor
  · rintro ⟨p, there, taken⟩
    obtain ⟨m, rfl⟩ := sound.tiled.monthly p there
    rwa [takesRun_monthPartition.mp taken]
  · exact fun there => ⟨_, there, takesRun_monthPartition.mpr rfl⟩

/-- The default partition is empty exactly if the months of all runs have their partitions. -/
theorem inDefault_eq_nil_iff (sound : s.Sound) :
    s.table.inDefault = [] ↔
      ∀ run ∈ s.db.jobRuns, monthPartition run.startMonth ∈ s.table.parts := by
  rw [Partitioned.inDefault_eq_nil_iff, sound.contents]
  exact forall₂_congr fun run _ => sound.taken_iff run

end RunStore.Sound

/--
The default partition of `job_runs` is empty exactly if, for every recorded run, the partition of
its month was asked for before the first run of that month was recorded.
-/
theorem default_partition_empty_iff (run : RunStore.Reaches past s) :
    s.table.inDefault = [] ↔ ∀ r ∈ s.db.jobRuns, AskedInTime past r.startMonth := by
  rw [(RunStore.Sound.of_run run).inDefault_eq_nil_iff]
  exact forall₂_congr fun r _ => RunStore.Sound.mem_parts_iff run r.startMonth

theorem default_partition_empty_iff_claimed :
    (claimedEarly.foldl RunStore.step .empty).table.inDefault ≠ [] ∧
      ¬∀ r ∈ (claimedEarly.foldl RunStore.step .empty).db.jobRuns,
        AskedInTime (trace RunStore.step .empty claimedEarly) r.startMonth := by
  have filled : (claimedEarly.foldl RunStore.step .empty).table.inDefault ≠ [] := by
    decide +kernel
  exact ⟨filled, mt (default_partition_empty_iff reaches_claimedEarly).mpr filled⟩

/--
A pass has asked for the partition of a month: it was made on one of the first 28 days of one of the
three months before, and whatever was recorded by then had started by then.
-/
def Prepared (past : List (Step RunStore RunStoreAction)) (m : Month) : Prop :=
  ∃ now, ∃ i ∈ lookahead, (utcDate now).day ≤ 28 ∧ (utcDate now).month.add i = m ∧
    ∃ e ∈ past, e.label = .ensure (targetMonth now i) ∧
      ∀ run ∈ e.pre.db.jobRuns, run.startedAt ≤ now

/-- Such a pass is in time. -/
theorem Prepared.inTime {m : Month} (passed : Prepared past m) : AskedInTime past m := by
  obtain ⟨now, i, ahead, early, rfl, e, listed, asked, past⟩ := passed
  have aimed : targetMonth now i = (utcDate now).month.add i := by
    have length := ((utcDate now).month.add i).length_bounds
    rw [targetMonth_eq, if_pos (by omega)]
  refine ⟨e, listed, by rw [asked, aimed], fun run there same => ?_⟩
  -- The run would have started in a later month.
  have order : (monthOf (run.startedAt / day + unixDay)).number ≤
      (monthOf (now / day + unixDay)).number := by
    refine monthOf_mono (Int.add_le_add_right (Int.ediv_le_ediv ?_ (past run there)) _)
    decide
  have later : ∀ i ∈ lookahead, 1 ≤ i := by decide
  have later := later i ahead
  have same := congrArg Month.number same
  simp only [JobRun.startMonth, utcDate, Date.ofNumber, Month.add] at same
  omega

/--
If a maintenance pass was made in the first 28 days of one of the three months before each month in
which runs have started, then no run is in the default partition.
-/
theorem regular_passes_suffice (run : RunStore.Reaches past s)
    (regular : ∀ r ∈ s.db.jobRuns, Prepared past r.startMonth) : s.table.inDefault = [] := by
  rw [(RunStore.Sound.of_run run).inDefault_eq_nil_iff]
  intro r listed
  exact (RunStore.Sound.mem_parts_iff run r.startMonth).mpr (regular r listed).inTime

/-- A pass on New Year's Day, before a job is submitted and claimed in February. -/
def passedBefore : List RunStoreAction :=
  [.ensure (targetMonth 0 1), .ensure (targetMonth 0 2), .ensure (targetMonth 0 3),
    .call (.insertJob (submittedJob 7 .hook 1 0)),
    .call (.tryClaim 1 "w" 21 (41 * day) 11 (40 * day))]

theorem regular_passes_suffice_before :
    (passedBefore.foldl RunStore.step .empty).db.jobRuns.length = 1 ∧
      (passedBefore.foldl RunStore.step .empty).table.inDefault = [] := by
  have run : RunStore.Reaches (trace RunStore.step .empty passedBefore)
      (passedBefore.foldl RunStore.step .empty) := run_trace fun _ listed => (mem_trace listed).2
  refine ⟨by decide +kernel, regular_passes_suffice run fun r listed => ?_⟩
  have started : ∀ r ∈ (passedBefore.foldl RunStore.step .empty).db.jobRuns,
      r.startMonth = (utcDate 0).month.add 1 := by decide +kernel
  refine ⟨0, 1, by decide, by decide +kernel, (started r listed).symm, ?_⟩
  exact ⟨_, List.mem_cons_self, rfl, fun run there => (nomatch there)⟩

end Sluice
