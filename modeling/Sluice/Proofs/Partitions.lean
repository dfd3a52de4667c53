import Sluice.Scheduler.Partitions

/-! Which partitions a pass creates, and on which days these are the ones of the next months. -/

namespace Sluice

open Calendar Text

/-- The number of a month is written with two digits. -/
theorem length_month (m : Month) : (zeroPadded 2 m.month).toList.length = 2 := by
  have bounds := m.month_bounds
  exact length_zeroPadded (by omega) (by omega) (by decide)

/-- The partition of a month. -/
def monthPartition (m : Month) : Partition := jobRunsPartition m.year m.month

/-- The name of a partition tells its month. -/
theorem monthPartition_name_inj {m m' : Month}
    (same : (monthPartition m).name = (monthPartition m').name) : m = m' := by
  have texts := congrArg String.toList same
  simp only [monthPartition, jobRunsPartition, String.toList_append] at texts
  -- The month stands at the end, after a separator.
  obtain ⟨fronts, months⟩ := List.append_inj' texts (by simp [length_month])
  have years := List.append_cancel_left (List.append_cancel_right fronts)
  rw [← m.of_year_month, ← m'.of_year_month, zeroPadded_inj (String.toList_injective years),
    zeroPadded_inj (String.toList_injective months)]

/-- The date that `time.Date` normalizes to. -/
theorem utcDate_timeDate (year month dayOfMonth : Int) {clock : Time} (early : 0 ≤ clock)
    (late : clock < day) : utcDate (timeDate year month dayOfMonth clock) =
      .ofNumber ((Month.of year month).firstDay + (dayOfMonth - 1)) := by
  unfold utcDate timeDate
  congr 1
  simp only [day, minute, second] at *
  lia

/-- A partition begins with its month. -/
theorem monthPartition_start (m : Month) : (monthPartition m).start.number = m.firstDay := by
  simp only [monthPartition, jobRunsPartition]
  rw [utcDate_timeDate _ _ _ (by decide) (by decide), m.of_year_month, Date.number_ofNumber]
  omega

/-- It ends when the next month begins. -/
theorem monthPartition_stop (m : Month) : (monthPartition m).stop.number = (m.add 1).firstDay := by
  simp only [monthPartition, jobRunsPartition]
  rw [utcDate_timeDate _ _ _ (by decide) (by decide), m.of_month_add, Date.number_ofNumber]
  omega

/-- Partitions of different months have no date in common. -/
theorem eq_of_overlaps {m m' : Month}
    (overlap : (monthPartition m).overlaps (monthPartition m') = true) : m = m' := by
  simp only [Partition.overlaps, Bool.and_eq_true, decide_eq_true_eq, monthPartition_start,
    monthPartition_stop] at overlap
  -- Of two different months one is over before the other begins.
  have order : (m.add 1).firstDay ≤ m'.firstDay ↔ _ := Month.firstDay_le_iff
  have order' : (m'.add 1).firstDay ≤ m.firstDay ↔ _ := Month.firstDay_le_iff
  apply Month.ext
  simp only [Month.add] at *
  omega

/-- Every partition is one of a month. -/
def Monthly (ps : Partitions) : Prop := ∀ p ∈ ps, ∃ m, p = monthPartition m

/-- Beside other months a month's partition can always be created. -/
theorem Monthly.create {ps : Partitions} (monthly : Monthly ps) (m : Month) :
    ∃ ps', ps.create (monthPartition m) = some ps' ∧ Monthly ps' := by
  unfold Partitions.create
  by_cases named : ps.any fun q => q.name == (monthPartition m).name
  · exact ⟨ps, if_pos named, monthly⟩
  · have free : ¬ps.any (monthPartition m).overlaps = true := by
      intro overlap
      obtain ⟨q, listed, overlap⟩ := List.any_eq_true.mp overlap
      obtain ⟨m', rfl⟩ := monthly q listed
      -- The only month that overlaps has the same name.
      rw [eq_of_overlaps overlap] at named
      exact named (List.any_eq_true.mpr ⟨_, listed, beq_self_eq_true _⟩)
    refine ⟨monthPartition m :: ps, by rw [if_neg named, if_neg free], ?_⟩
    intro p listed
    rcases List.mem_cons.mp listed with rfl | listed
    · exact ⟨m, rfl⟩
    · exact monthly p listed

/-- The tables that were there stay, those of some months are there too, and no others are new. -/
structure Covers (months : List Month) (ps ps' : Partitions) : Prop where
  kept : ∀ p ∈ ps, p ∈ ps'
  present : ∀ m ∈ months, ∃ p ∈ ps', p.name = (monthPartition m).name
  only : ∀ p ∈ ps', p ∈ ps ∨ ∃ m ∈ months, p = monthPartition m

/-- A statement that succeeds creates its table or finds it. -/
theorem covers_create {m : Month} {ps ps' : Partitions}
    (created : ps.create (monthPartition m) = some ps') : Covers [m] ps ps' := by
  unfold Partitions.create at created
  split at created
  · rename_i named
    cases created
    obtain ⟨q, listed, same⟩ := List.any_eq_true.mp named
    refine ⟨fun p listed => listed, ?_, fun p listed => .inl listed⟩
    simpa using ⟨q, listed, eq_of_beq same⟩
  · split at created
    · cases created
    · cases created
      refine ⟨fun p listed => List.mem_cons_of_mem _ listed, ?_, ?_⟩
      · simp
      · intro p listed
        rcases List.mem_cons.mp listed with rfl | listed
        · exact .inr ⟨m, List.mem_singleton_self m, rfl⟩
        · exact .inl listed

/-- Statements follow one another. -/
theorem Covers.cons {m : Month} {months : List Month} {ps ps' ps'' : Partitions}
    (first : Covers [m] ps ps') (rest : Covers months ps' ps'') : Covers (m :: months) ps ps'' := by
  refine ⟨fun p listed => rest.kept p (first.kept p listed), ?_, ?_⟩
  · intro m' listed
    rcases List.mem_cons.mp listed with rfl | listed
    · obtain ⟨p, there, named⟩ := first.present m' (List.mem_singleton_self m')
      exact ⟨p, rest.kept p there, named⟩
    · exact rest.present m' listed
  · intro p listed
    rcases rest.only p listed with earlier | ⟨m', later, made⟩
    · rcases first.only p earlier with old | ⟨m', is, made⟩
      · exact .inl old
      · rw [List.mem_singleton.mp is] at made
        exact .inr ⟨m, List.mem_cons_self, made⟩
    · exact .inr ⟨m', List.mem_cons_of_mem _ later, made⟩

theorem create_of_ensureJobRunsPartition {m : Month} {fails : Bool} {ps ps' : Partitions}
    (made : ensureJobRunsPartition m.year m.month fails ps = some ps') :
    ps.create (monthPartition m) = some ps' := by
  unfold ensureJobRunsPartition at made
  split at made
  · cases made
  · exact made

/-- The month whose partition a round of a pass asks for. -/
def targetMonth (now : Time) (i : Int) : Month := (utcDate (addDate now 0 i 0)).month

/-- Rounds that all succeed create the partitions of their targets or find them. -/
theorem covers_ensureMonths {now : Time} {fails : Int → Bool} {rounds : List Int} {ps : Partitions}
    (ok : ∀ entry ∈ (ensureMonths now fails rounds ps).2, entry.ok = true) :
    Covers (rounds.map (targetMonth now)) ps (ensureMonths now fails rounds ps).1 := by
  -- The induction is on the rounds, each of which goes on with what the one before has left.
  induction rounds generalizing ps with
  | nil => exact ⟨fun p listed => listed, by simp, fun p listed => .inl listed⟩
  | cons i rest ih =>
    rw [ensureMonths] at ok ⊢
    dsimp only at ok ⊢
    rw [← targetMonth] at ok ⊢
    cases made : ensureJobRunsPartition (targetMonth now i).year (targetMonth now i).month
      (fails i) ps with
    | none =>
      -- The round would have logged an error.
      rw [made] at ok
      cases ok _ List.mem_cons_self
    | some ps' =>
      rw [made] at ok
      exact (covers_create (create_of_ensureJobRunsPartition made)).cons (ih fun entry listed =>
        ok entry (List.mem_cons_of_mem _ listed))

/-- Beside other months a statement of a pass fails only for reasons of its own. -/
theorem Monthly.ensureMonths {ps : Partitions} (monthly : Monthly ps) (now : Time)
    (fails : Int → Bool) (rounds : List Int) : Monthly (ensureMonths now fails rounds ps).1 ∧
    (ensureMonths now fails rounds ps).2.map PartitionEntry.ok = rounds.map fun i => !fails i := by
  induction rounds generalizing ps with
  | nil => exact ⟨monthly, rfl⟩
  | cons i rest ih =>
    rw [Sluice.ensureMonths]
    dsimp only
    rw [← targetMonth]
    unfold ensureJobRunsPartition
    cases failed : fails i with
    | true =>
      obtain ⟨monthly', oks⟩ := ih monthly
      exact ⟨monthly', by simp [oks, failed]⟩
    | false =>
      -- No table that is there stands in the way.
      obtain ⟨ps', created, monthly'⟩ := monthly.create (targetMonth now i)
      rw [if_neg Bool.false_ne_true, ← monthPartition, created]
      obtain ⟨monthly'', oks⟩ := ih monthly'
      exact ⟨monthly'', by simp [oks, failed]⟩

/-- A pass succeeds where no statement has such reasons. -/
theorem Monthly.ensureMonths_ok {ps : Partitions} (monthly : Monthly ps) (now : Time)
    (rounds : List Int) :
    ∀ entry ∈ (Sluice.ensureMonths now (fun _ => false) rounds ps).2, entry.ok = true := by
  intro entry listed
  have logged : entry.ok ∈ rounds.map fun _ => !false := by
    rw [← (monthly.ensureMonths now (fun _ => false) rounds).2]
    exact List.mem_map_of_mem listed
  obtain ⟨i, -, is⟩ := List.mem_map.mp logged
  exact is.symm

/-- Adding months carries a day that the month lacks into the month after. -/
theorem targetMonth_eq (now : Time) (i : Int) : targetMonth now i =
    if (utcDate now).day ≤ ((utcDate now).month.add i).length then (utcDate now).month.add i
    else (utcDate now).month.add (i + 1) := by
  have clock : 0 ≤ now % day ∧ now % day < day := by
    simp only [day, minute, second]
    lia
  unfold targetMonth addDate
  dsimp only
  rw [utcDate_timeDate _ _ _ clock.1 clock.2, add_zero, add_zero, Month.of_month_add]
  have valid := (utcDate now).valid
  have longest := (utcDate now).month.length_bounds
  have shortest := ((utcDate now).month.add (i + 1)).length_bounds
  have shortest' := ((utcDate now).month.add i).length_bounds
  have next := ((utcDate now).month.add i).firstDay_add_one
  rw [show ((utcDate now).month.add i).add 1 = (utcDate now).month.add (i + 1) by
    simp [Month.add, add_assoc]] at next
  -- A day that the month lacks is one of the first three of the next month.
  split
  · exact monthOf_eq_iff.mpr (by omega)
  · exact monthOf_eq_iff.mpr (by omega)

/-- The three months that follow a date. -/
def followingMonths (d : Date) : List Month := [d.month.add 1, d.month.add 2, d.month.add 3]

/-- A pass in which every statement succeeds creates or finds exactly the next three months. -/
def LooksAhead (now : Time) : Prop :=
  ∀ fails ps, (∀ entry ∈ (ensurePartitions now fails ps).2, entry.ok = true) →
    Covers (followingMonths (utcDate now)) ps (ensurePartitions now fails ps).1

theorem map_targetMonth (now : Time) :
    lookahead.map (targetMonth now) =
      [targetMonth now 1, targetMonth now 2, targetMonth now 3] := rfl

/-- A pass that aims at each of the next three months misses none of them by a day. -/
theorem day_le_of_targets {now : Time}
    (aimed : ∀ m ∈ followingMonths (utcDate now), m ∈ lookahead.map (targetMonth now)) :
    ∀ m ∈ followingMonths (utcDate now), (utcDate now).day ≤ m.length := by
  have first := targetMonth_eq now 1
  have next := targetMonth_eq now 2
  have last := targetMonth_eq now 3
  simp only [followingMonths, List.forall_mem_cons, List.not_mem_nil, false_implies, implies_true,
    and_true] at aimed ⊢
  simp only [map_targetMonth, List.mem_cons, List.not_mem_nil, or_false, Month.ext_iff] at *
  -- No round but the first can aim at the next month, and so on.
  split at first <;> split at next <;> split at last <;> simp only [Month.add] at * <;> omega

/-- The partitions are those of the next three months exactly if these all have today's day. -/
theorem partition_lookahead_iff (now : Time) :
    LooksAhead now ↔ ∀ m ∈ followingMonths (utcDate now), (utcDate now).day ≤ m.length := by
  constructor
  · intro ahead
    -- From no partitions at all, the pass creates those of its targets.
    have empty : Monthly [] := by simp [Monthly]
    have ok := empty.ensureMonths_ok now lookahead
    have covers := ahead (fun _ => false) [] ok
    apply day_le_of_targets
    intro m listed
    obtain ⟨p, there, named⟩ := covers.present m listed
    rcases (covers_ensureMonths ok).only p there with old | ⟨m', aimed, rfl⟩
    · cases old
    · rwa [← monthPartition_name_inj named]
  · intro fits fails ps ok
    have covers := covers_ensureMonths ok
    simp only [followingMonths, List.forall_mem_cons] at fits
    rw [map_targetMonth, targetMonth_eq, targetMonth_eq, targetMonth_eq, if_pos fits.1,
      if_pos fits.2.1, if_pos fits.2.2.1] at covers
    exact covers

/-- Noon of 31 January 2026. -/
def lateJanuary : Time := timeDate 2026 1 31 (720 * minute)

/-- A pass on that day creates March and May, but neither February nor April. -/
theorem lookahead_skips_february : ¬LooksAhead lateJanuary := by
  intro ahead
  have covers := ahead (fun _ => false) [] (by decide +kernel)
  obtain ⟨p, there, named⟩ := covers.present (Month.of 2026 2) (by decide +kernel)
  have absent : ∀ p ∈ (ensurePartitions lateJanuary (fun _ => false) []).1,
      p.name ≠ (monthPartition (Month.of 2026 2)).name := by
    decide +kernel
  exact absent p there named

end Sluice
