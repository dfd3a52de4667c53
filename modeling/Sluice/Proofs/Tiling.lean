import Sluice.Proofs.Partitions

/-! The monthly partitions lie side by side, and Postgres reads their bounds as they are meant. -/

namespace Sluice

open Calendar Text

/-- A number without a sign is padded with zeros. -/
theorem appendInt_of_nonneg (width : Nat) {n : Int} (positive : 0 ≤ n) :
    appendInt width n = zeroPadded width n := by
  unfold appendInt
  rw [if_neg (by omega)]

/-- A date whose year has four digits reads back as it was written. -/
theorem readDate_formatDate {d : Date} (years : 1 ≤ d.month.year ∧ d.month.year ≤ 9999) :
    readDate (formatDate d) = some d := by
  have months := d.month.month_bounds
  have valid := d.valid
  have longest := d.month.length_bounds
  have text : (formatDate d).toList = (zeroPadded 4 d.month.year).toList ++ ('-' ::
      ((zeroPadded 2 d.month.month).toList ++ ('-' :: ((zeroPadded 2 d.day).toList ++ [])))) := by
    unfold formatDate
    rw [appendInt_of_nonneg 4 (by omega), appendInt_of_nonneg 2 (by omega),
      appendInt_of_nonneg 2 (by omega)]
    simp
  unfold readDate
  rw [text]
  -- Each number fits its field, so the fields are read one after the other.
  rw [readDigits_zeroPadded (by omega) (by omega) (by decide)]
  simp only [Option.bind_eq_bind, Option.bind_some, readChar_cons]
  rw [readDigits_zeroPadded (by omega) (by omega) (by decide)]
  simp only [Option.bind_some, readChar_cons]
  rw [readDigits_zeroPadded (by omega) (by omega) (by decide)]
  simp [years.1]

/-- A partition holds the dates of its month. -/
theorem monthPartition_holds {m : Month} {d : Date} :
    (monthPartition m).holds d = true ↔ d.month = m := by
  rw [← d.monthOf_number, monthOf_eq_iff, ← m.firstDay_add_one]
  simp only [Partition.holds, Bool.and_eq_true, decide_eq_true_eq, monthPartition_start,
    monthPartition_stop]

/-- A date has begun exactly if the present one is not earlier. -/
theorem midnight_le_iff {d : Date} {t : Time} :
    midnight d ≤ t ↔ d.number ≤ (utcDate t).number := by
  have date : (utcDate t).number = t / day + unixDay := Date.number_ofNumber _
  rw [date]
  simp only [midnight, day, minute, second]
  lia

/-- A run goes to the partition that holds the date of its start. -/
theorem takes_eq_holds (p : Partition) (t : Time) : p.takes t = p.holds (utcDate t) := by
  have ends : t < midnight p.stop ↔ (utcDate t).number < p.stop.number := by
    rw [← Int.not_le, midnight_le_iff, Int.not_le]
  simp only [Partition.takes, Partition.holds, midnight_le_iff, ends]

/-- A partition ends where the one of the next month begins. -/
theorem monthPartition_adjacent (m : Month) :
    (monthPartition m).stop = (monthPartition (m.add 1)).start := by
  apply Date.number_injective
  rw [monthPartition_stop, monthPartition_start]

/-- A partition begins in its own month. -/
theorem monthPartition_start_month (m : Month) : (monthPartition m).start.month = m := by
  rw [← Date.monthOf_number, monthPartition_start, monthOf_firstDay]

/-- Postgres reads the statement for a month as the partition that is meant. -/
theorem partition_statement {m : Month} (years : 1 ≤ m.year ∧ m.year ≤ 9998) :
    (monthPartition m).statement.partition = some (monthPartition m) := by
  have start := monthPartition_start_month m
  have stop := monthPartition_start_month (m.add 1)
  rw [← monthPartition_adjacent] at stop
  -- The end of December 9998 is in the last year that has four digits.
  have next : m.year ≤ (m.add 1).year ∧ (m.add 1).year ≤ m.year + 1 := by
    simp only [Month.year, Month.add]
    omega
  have lower : readDate (formatDate (monthPartition m).start) = some (monthPartition m).start :=
    readDate_formatDate (by rw [start]; omega)
  have upper : readDate (formatDate (monthPartition m).stop) = some (monthPartition m).stop :=
    readDate_formatDate (by rw [stop]; omega)
  simp [Partition.statement, PartitionStatement.partition, lower, upper]

/-- A year and a month of it for which `EnsureJobRunsPartition` writes years of four digits. -/
@[ext]
structure PartitionMonth where
  year : Int
  month : Int
  years : 1 ≤ year ∧ year ≤ 9998
  months : 1 ≤ month ∧ month ≤ 12

namespace PartitionMonth

/-- The partition that `EnsureJobRunsPartition` asks for. -/
def partition (a : PartitionMonth) : Partition := jobRunsPartition a.year a.month

/-- The month itself. -/
def toMonth (a : PartitionMonth) : Month := .of a.year a.month

/-- A month of these years. -/
def ofMonth (m : Month) (years : 1 ≤ m.year ∧ m.year ≤ 9998) : PartitionMonth :=
  ⟨m.year, m.month, years, m.month_bounds⟩

variable {a b : PartitionMonth}

/-- It is of the same year. -/
theorem year_toMonth (a : PartitionMonth) : a.toMonth.year = a.year :=
  (Month.year_month_of a.year a.months).1

/-- It has the same number in its year. -/
theorem month_toMonth (a : PartitionMonth) : a.toMonth.month = a.month :=
  (Month.year_month_of a.year a.months).2

/-- Different pairs are different months. -/
theorem toMonth_inj : a.toMonth = b.toMonth ↔ a = b := by
  constructor
  · intro same
    apply PartitionMonth.ext
    · rw [← a.year_toMonth, same, b.year_toMonth]
    · rw [← a.month_toMonth, same, b.month_toMonth]
  · intro same
    rw [same]

/-- Going there and back changes nothing. -/
@[simp]
theorem toMonth_ofMonth {m : Month} (years : 1 ≤ m.year ∧ m.year ≤ 9998) :
    (ofMonth m years).toMonth = m := m.of_year_month

/-- The partition is the one of the month. -/
theorem partition_eq (a : PartitionMonth) : a.partition = monthPartition a.toMonth := by
  unfold partition monthPartition
  rw [year_toMonth, month_toMonth]

/-- It begins before it ends. -/
theorem nonempty (a : PartitionMonth) : a.partition.start.number < a.partition.stop.number := by
  have lasts := a.toMonth.length_bounds
  rw [a.partition_eq, monthPartition_start, monthPartition_stop, Month.firstDay_add_one]
  omega

/-- Partitions of different months do not overlap. -/
theorem overlaps_eq_false (distinct : a ≠ b) : a.partition.overlaps b.partition = false := by
  rw [a.partition_eq, b.partition_eq, Bool.eq_false_iff]
  intro overlap
  exact distinct (toMonth_inj.mp (eq_of_overlaps overlap))

/-- They have different names. -/
theorem name_inj (same : a.partition.name = b.partition.name) : a = b := by
  rw [a.partition_eq, b.partition_eq] at same
  exact toMonth_inj.mp (monthPartition_name_inj same)

/-- A partition holds the dates of its month. -/
theorem holds_iff {d : Date} : a.partition.holds d = true ↔ d.month = a.toMonth := by
  rw [a.partition_eq, monthPartition_holds]

/-- A date of these years is in the range of one month only, which is its own. -/
theorem holds_iff_eq {d : Date} (years : 1 ≤ d.month.year ∧ d.month.year ≤ 9998) :
    a.partition.holds d = true ↔ a = ofMonth d.month years := by
  rw [holds_iff, ← toMonth_inj, toMonth_ofMonth]
  exact eq_comm

/-- December ends with its year, since the thirteenth month is January of the next one. -/
theorem stop_december (december : a.month = 12) :
    a.partition.stop = (jobRunsPartition (a.year + 1) 1).start := by
  have next : a.toMonth.add 1 = .of (a.year + 1) 1 := by
    apply Month.ext
    simp only [toMonth, Month.of, Month.add]
    omega
  obtain ⟨year, month⟩ := Month.year_month_of (a.year + 1) (show (1 : Int) ≤ 1 ∧ 1 ≤ 12 by decide)
  rw [a.partition_eq, monthPartition_adjacent, next]
  unfold monthPartition
  rw [year, month]

/-- Postgres reads the statement as the partition that is meant. -/
theorem read (a : PartitionMonth) : a.partition.statement.partition = some a.partition := by
  rw [a.partition_eq]
  exact partition_statement (by rw [a.year_toMonth]; exact a.years)

end PartitionMonth

/-- The months from January 2026 to January 2027. -/
def seedMonths : List Month := (List.range 13).map fun i : Nat => (Month.of 2026 1).add i

/-- They are the months between the two. -/
theorem mem_seedMonths {m : Month} : m ∈ seedMonths ↔
    (Month.of 2026 1).number ≤ m.number ∧ m.number ≤ (Month.of 2027 1).number := by
  simp only [seedMonths, List.mem_map, List.mem_range, Month.of, Month.add, Month.ext_iff]
  constructor
  · rintro ⟨i, few, is⟩
    omega
  · rintro ⟨begun, ended⟩
    exact ⟨(m.number - (12 * 2026 + (1 - 1))).toNat, by omega, by omega⟩

/-- None of them comes twice. -/
theorem seedMonths_nodup : seedMonths.Nodup := by
  apply List.nodup_range.map
  intro i j same
  simp only [Month.add, Month.mk.injEq] at same
  omega

/-- All of them have years of four digits. -/
theorem seedMonths_years {m : Month} (listed : m ∈ seedMonths) : 1 ≤ m.year ∧ m.year ≤ 9998 := by
  rw [mem_seedMonths] at listed
  simp only [Month.of, Month.year] at *
  omega

/-- The migration has written the statements for these months. -/
theorem seedPartitions_eq :
    seedPartitions = seedMonths.map fun m => (monthPartition m).statement := by
  decide +kernel

/-- Each of its statements is the one for its month. -/
theorem exists_month_of_seed {s : PartitionStatement} (listed : s ∈ seedPartitions) :
    ∃ a : PartitionMonth, s = a.partition.statement := by
  rw [seedPartitions_eq] at listed
  obtain ⟨m, seed, rfl⟩ := List.mem_map.mp listed
  refine ⟨.ofMonth m (seedMonths_years seed), ?_⟩
  rw [PartitionMonth.partition_eq, PartitionMonth.toMonth_ofMonth]

/-- The partitions of the months lie side by side, as they are read from the statements. -/
structure Tiling : Prop where
  -- The texts of the bounds are read as the dates that are meant.
  read : ∀ a : PartitionMonth, a.partition.statement.partition = some a.partition
  nonempty : ∀ a : PartitionMonth, a.partition.start.number < a.partition.stop.number
  disjoint : ∀ a b : PartitionMonth, a ≠ b → a.partition.overlaps b.partition = false ∧
    ∀ d, ¬(a.partition.holds d = true ∧ b.partition.holds d = true)
  named : ∀ a b : PartitionMonth, a ≠ b → a.partition.name ≠ b.partition.name
  adjacent : ∀ a : PartitionMonth, a.month < 12 →
    a.partition.stop = (jobRunsPartition a.year (a.month + 1)).start
  yearEnd : ∀ a : PartitionMonth, a.month = 12 →
    a.partition.stop = (jobRunsPartition (a.year + 1) 1).start
  -- A date is in the range of its own month and in no other.
  dates : ∀ d : Date, 1 ≤ d.month.year ∧ d.month.year ≤ 9998 →
    ∃ a : PartitionMonth, (a.year = d.month.year ∧ a.month = d.month.month) ∧
      ∀ b : PartitionMonth, b.partition.holds d = true ↔ b = a
  -- So is every instant of it.
  runs : ∀ t : Time, 1 ≤ (utcDate t).month.year ∧ (utcDate t).month.year ≤ 9998 →
    ∃ a : PartitionMonth, (a.year = (utcDate t).month.year ∧ a.month = (utcDate t).month.month) ∧
      ∀ b : PartitionMonth, b.partition.takes t = true ↔ b = a
  seeded : ∀ s ∈ seedPartitions, ∃ a : PartitionMonth, s = a.partition.statement

/-- From the year 1 to the year 9998 the monthly partitions tile time. -/
theorem monthly_partitions_tile : Tiling where
  read := PartitionMonth.read
  nonempty := PartitionMonth.nonempty
  disjoint a b distinct := by
    refine ⟨PartitionMonth.overlaps_eq_false distinct, ?_⟩
    intro d ⟨first, second⟩
    rw [PartitionMonth.holds_iff] at first second
    exact distinct (PartitionMonth.toMonth_inj.mp (first.symm.trans second))
  named a b distinct same := distinct (PartitionMonth.name_inj same)
  -- Both dates come from the same call of `time.Date`.
  adjacent a within := rfl
  yearEnd a december := PartitionMonth.stop_december december
  dates d years := by
    refine ⟨.ofMonth d.month years, ⟨rfl, rfl⟩, ?_⟩
    intro b
    exact PartitionMonth.holds_iff_eq years
  runs t years := by
    refine ⟨.ofMonth (utcDate t).month years, ⟨rfl, rfl⟩, ?_⟩
    intro b
    rw [takes_eq_holds]
    exact PartitionMonth.holds_iff_eq years
  seeded s listed := exists_month_of_seed listed

/-- The partitions of a database, no two of which are of the same month. -/
structure Tiled (ps : Partitions) : Prop where
  monthly : Monthly ps
  distinct : ps.Pairwise fun p q => p.name ≠ q.name

namespace Tiled

variable {ps ps' : Partitions}

/-- Only the partition of a month has its name. -/
theorem name_free (tiled : Tiled ps) {m : Month} (fresh : monthPartition m ∉ ps) :
    ¬(ps.any fun q => q.name == (monthPartition m).name) = true := by
  intro named
  obtain ⟨q, listed, same⟩ := List.any_eq_true.mp named
  obtain ⟨m', rfl⟩ := tiled.monthly q listed
  rw [monthPartition_name_inj (eq_of_beq same)] at listed
  exact fresh listed

/-- A new partition takes its place beside the others. -/
theorem create (tiled : Tiled ps) {m : Month}
    (created : ps.create (monthPartition m) = some ps') : Tiled ps' := by
  obtain ⟨ps'', made, monthly⟩ := tiled.monthly.create m
  have same : ps'' = ps' := Option.some.inj (made.symm.trans created)
  rw [same] at monthly
  refine ⟨monthly, ?_⟩
  unfold Partitions.create at created
  split at created
  · cases created
    exact tiled.distinct
  · rename_i free
    split at created
    · cases created
    · -- A new table has a name that no other one has.
      cases created
      refine List.pairwise_cons.mpr ⟨?_, tiled.distinct⟩
      intro q listed named
      exact free (List.any_eq_true.mpr ⟨q, listed, beq_iff_eq.mpr named.symm⟩)

/-- Whatever fails, a pass leaves the partitions side by side and keeps those there were. -/
theorem ensureMonths (tiled : Tiled ps) (now : Time) (fails : Int → Bool) (rounds : List Int) :
    Tiled (ensureMonths now fails rounds ps).1 ∧
      ∀ p ∈ ps, p ∈ (Sluice.ensureMonths now fails rounds ps).1 := by
  -- The induction is on the rounds, and a round that fails leaves all as it was.
  induction rounds generalizing ps with
  | nil => exact ⟨tiled, fun p listed => listed⟩
  | cons i rest ih =>
    rw [Sluice.ensureMonths]
    dsimp only
    rw [← targetMonth]
    cases made : ensureJobRunsPartition (targetMonth now i).year (targetMonth now i).month
      (fails i) ps with
    | none => exact ih tiled
    | some ps' =>
      have created := create_of_ensureJobRunsPartition made
      obtain ⟨tiled', kept⟩ := ih (tiled.create created)
      exact ⟨tiled', fun p listed => kept p ((covers_create created).kept p listed)⟩

/-- So do all passes of a maintainer. -/
theorem runPartitionMaintainer (tiled : Tiled ps) (passes : List (Time × (Int → Bool))) :
    Tiled (runPartitionMaintainer passes ps) ∧
      ∀ p ∈ ps, p ∈ Sluice.runPartitionMaintainer passes ps := by
  induction passes generalizing ps with
  | nil => exact ⟨tiled, fun p listed => listed⟩
  | cons pass rest ih =>
    obtain ⟨next, kept⟩ := tiled.ensureMonths pass.1 pass.2 lookahead
    obtain ⟨last, kept'⟩ := ih next
    exact ⟨last, fun p listed => kept' p (kept p listed)⟩

/-- A run goes to one partition at most. -/
theorem eq_of_takes (tiled : Tiled ps) {p q : Partition} (listed : p ∈ ps) (listed' : q ∈ ps)
    {t : Time} (takes : p.takes t = true) (takes' : q.takes t = true) : p = q := by
  obtain ⟨m, rfl⟩ := tiled.monthly p listed
  obtain ⟨m', rfl⟩ := tiled.monthly q listed'
  rw [takes_eq_holds, monthPartition_holds] at takes takes'
  rw [← takes, ← takes']

/-- The partition of a month that is not there yet is created. -/
theorem create_of_fresh (tiled : Tiled ps) {m : Month} (fresh : monthPartition m ∉ ps) :
    ps.create (monthPartition m) = some (monthPartition m :: ps) := by
  obtain ⟨ps', created, -⟩ := tiled.monthly.create m
  unfold Partitions.create at created ⊢
  rw [if_neg (tiled.name_free fresh)] at created ⊢
  split at created
  · cases created
  · rename_i apart
    rw [if_neg apart]

/-- Statements for different months that are not there yet all succeed. -/
theorem migrate (tiled : Tiled ps) {months : List Month}
    (years : ∀ m ∈ months, 1 ≤ m.year ∧ m.year ≤ 9998)
    (fresh : ∀ m ∈ months, monthPartition m ∉ ps) (nodup : months.Nodup) :
    ∃ ps', (months.map fun m => (monthPartition m).statement).foldlM
        (fun ps s => s.partition.bind ps.createNew) ps = some ps' ∧
      Tiled ps' ∧ (∀ p ∈ ps, p ∈ ps') ∧ ∀ m ∈ months, monthPartition m ∈ ps' := by
  -- The induction is on the statements, each of which adds one month to those there are.
  induction months generalizing ps with
  | nil => exact ⟨ps, rfl, tiled, fun p listed => listed, by simp⟩
  | cons m rest ih =>
    simp only [List.forall_mem_cons, List.nodup_cons] at years fresh nodup ⊢
    have created := tiled.create_of_fresh fresh.1
    have createdNew : ps.createNew (monthPartition m) = some (monthPartition m :: ps) := by
      unfold Partitions.createNew
      rw [if_neg (tiled.name_free fresh.1), created]
    -- The months that follow are others than this one.
    have others : ∀ m' ∈ rest, monthPartition m' ∉ monthPartition m :: ps := by
      intro m' listed there
      rcases List.mem_cons.mp there with same | there
      · rw [monthPartition_name_inj (congrArg Partition.name same)] at listed
        exact nodup.1 listed
      · exact fresh.2 m' listed there
    obtain ⟨ps', migrated, tiled', kept, covered⟩ :=
      ih (tiled.create created) years.2 others nodup.2
    refine ⟨ps', ?_, tiled', fun p listed => kept p (List.mem_cons_of_mem _ listed),
      kept _ List.mem_cons_self, covered⟩
    rw [List.map_cons, List.foldlM_cons, partition_statement years.1]
    simp only [Option.bind_some, createdNew]
    exact migrated

end Tiled

/-- The migration succeeds, and leaves the partitions of its months side by side. -/
theorem migrated_tiled : ∃ ps, migratePartitions = some ps ∧ Tiled ps ∧
    ∀ m ∈ seedMonths, monthPartition m ∈ ps := by
  have empty : Tiled [] := ⟨by simp [Monthly], .nil⟩
  obtain ⟨ps, migrated, tiled, -, covered⟩ := empty.migrate (fun m => seedMonths_years)
    (fun m listed there => by cases there) seedMonths_nodup
  rw [← seedPartitions_eq] at migrated
  exact ⟨ps, migrated, tiled, covered⟩

/-- What holds of the partitions after the migration and some passes. -/
structure Maintained (ps : Partitions) : Prop where
  tiled : Tiled ps
  -- No statement of a further pass fails on what is there.
  next : ∀ now fails, (ensurePartitions now fails ps).2.map PartitionEntry.ok =
    lookahead.map fun i => !fails i
  taken : ∀ t, (utcDate t).month ∈ seedMonths → ∃! p, p ∈ ps ∧ p.takes t = true

/-- Whatever passes follow the migration, a run of its months goes to exactly one partition. -/
theorem maintained : ∃ ps, migratePartitions = some ps ∧
    ∀ passes, Maintained (runPartitionMaintainer passes ps) := by
  obtain ⟨ps, migrated, tiled, covered⟩ := migrated_tiled
  refine ⟨ps, migrated, fun passes => ?_⟩
  obtain ⟨tiled', kept⟩ := tiled.runPartitionMaintainer passes
  refine ⟨tiled', fun now fails => (tiled'.monthly.ensureMonths now fails lookahead).2, ?_⟩
  intro t seed
  have there := kept _ (covered _ seed)
  have takes : (monthPartition (utcDate t).month).takes t = true := by
    rw [takes_eq_holds, monthPartition_holds]
  refine ⟨_, ⟨there, takes⟩, ?_⟩
  intro q ⟨listed, takes'⟩
  exact tiled'.eq_of_takes listed there takes' takes

end Sluice
