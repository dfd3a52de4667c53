import Mathlib
import Sluice.Proofs.Queue
import Sluice.Queue.Shuffle
import Sluice.Transition.Run

/-! The shuffle takes every tenant once and by its weight, and leaves its caller's slice alone. -/

namespace Sluice

open Memory Transition

/-- A pick takes the tenant out on whose place the draw falls. -/
theorem pick_eq (r cum : Int) (tenants : List TenantWeight) :
    pick r cum tenants = (pickIndex r cum tenants).bind fun i =>
      tenants[i]?.map fun t => (t.id, tenants.eraseIdx i) := by
  -- The tenants that the draw passes stay in front of the one that is taken out.
  induction tenants generalizing cum with
  | nil => rfl
  | cons t rest ih =>
    rw [pick, pickIndex]
    split
    · rfl
    · rw [ih]
      cases pickIndex r (cum + t.weight) rest with
      | none => rfl
      | some i => cases found : rest[i]? <;> simp [found]

/-- A draw falls on the tenant in whose part of the sum it lies. -/
theorem pickIndex_eq_some_iff {r cum : Int} {tenants : List TenantWeight}
    (positive : ∀ t ∈ tenants, 0 < t.weight) (low : cum ≤ r) (i : Nat) :
    pickIndex r cum tenants = some i ↔
      i < tenants.length ∧ cum + totalWeight (tenants.take i) ≤ r ∧
        r < cum + totalWeight (tenants.take (i + 1)) := by
  induction tenants generalizing cum i with
  | nil => simp [pickIndex]
  | cons t rest ih =>
    obtain ⟨first, others⟩ := List.forall_mem_cons.mp positive
    rw [pickIndex]
    by_cases own : r < cum + t.weight
    · -- No later part of the sum begins below the end of the first one.
      rw [if_pos own, Option.some.injEq]
      cases i with
      | zero => simpa [totalWeight, low] using own
      | succ i =>
        have part : 0 ≤ totalWeight (rest.take i) :=
          totalWeight_nonneg fun t listed => others t (List.mem_of_mem_take listed)
        simp only [List.take_succ_cons, totalWeight_cons]
        constructor
        · intro same
          cases same
        · omega
    · rw [if_neg own]
      cases i with
      | zero =>
        simp only [Option.map_eq_some_iff, Nat.add_eq_zero_iff, Nat.one_ne_zero, and_false,
          exists_false, false_iff, List.take_zero, List.take_succ_cons, totalWeight_cons]
        simp [totalWeight]
        omega
      | succ i =>
        have later := ih others (show cum + t.weight ≤ r by omega) i
        simp only [Option.map_eq_some_iff, Nat.add_right_cancel_iff, exists_eq_right, later,
          List.take_succ_cons, totalWeight_cons, List.length_cons]
        omega

/-- Every number below the total falls on some tenant. -/
theorem exists_pickIndex {r : Int} {tenants : List TenantWeight} (cum : Int)
    (low : cum ≤ r) (high : r < cum + totalWeight tenants) :
    ∃ i, pickIndex r cum tenants = some i := by
  induction tenants generalizing cum with
  | nil =>
    simp [totalWeight] at high
    omega
  | cons t rest ih =>
    rw [pickIndex]
    by_cases own : r < cum + t.weight
    · exact ⟨0, if_pos own⟩
    · rw [totalWeight_cons] at high
      have later : r < cum + t.weight + totalWeight rest := by omega
      obtain ⟨i, found⟩ := ih (cum + t.weight) (by omega) later
      exact ⟨i + 1, by rw [if_neg own, found]; rfl⟩

/-- A draw falls on a place of the list. -/
theorem pickIndex_lt {r cum : Int} {tenants : List TenantWeight} {i : Nat}
    (falls : pickIndex r cum tenants = some i) : i < tenants.length := by
  induction tenants generalizing cum i with
  | nil => cases falls
  | cons t rest ih =>
    rw [pickIndex] at falls
    split at falls
    · cases falls
      exact Nat.zero_lt_succ _
    · obtain ⟨place, later, rfl⟩ := Option.map_eq_some_iff.mp falls
      exact Nat.succ_lt_succ (ih later)

/-- As many numbers fall on a tenant as its weight says. -/
theorem card_pickIndex {tenants : List TenantWeight} (positive : ∀ t ∈ tenants, 0 < t.weight)
    {i : Nat} {t : TenantWeight} (found : tenants[i]? = some t) :
    (((Finset.Ico 0 (totalWeight tenants)).filter fun r =>
      pickIndex r 0 tenants = some i).card : Int) =
      t.weight := by
  have own := positive t (List.mem_of_getElem? found)
  have listed : i < tenants.length := (List.getElem?_eq_some_iff.mp found).1
  -- The numbers are those of one part of the sum, which begins and ends within the whole.
  have before : 0 ≤ totalWeight (tenants.take i) :=
    totalWeight_nonneg fun t member => positive t (List.mem_of_mem_take member)
  have part : totalWeight (tenants.take (i + 1)) = totalWeight (tenants.take i) +
      t.weight := by
    rw [List.take_add_one, found, totalWeight, totalWeight]
    simp
  have whole : totalWeight (tenants.take (i + 1)) ≤ totalWeight tenants := by
    have rest : 0 ≤ totalWeight (tenants.drop (i + 1)) :=
      totalWeight_nonneg fun t member => positive t (List.mem_of_mem_drop member)
    have both : totalWeight tenants =
        totalWeight (tenants.take (i + 1)) + totalWeight (tenants.drop (i + 1)) := by
      rw [totalWeight, totalWeight, totalWeight, ← List.sum_append, ← List.map_append,
        List.take_append_drop]
    omega
  have same : (Finset.Ico 0 (totalWeight tenants)).filter
      (fun r => pickIndex r 0 tenants = some i) =
      Finset.Ico (totalWeight (tenants.take i)) (totalWeight (tenants.take (i + 1))) := by
    ext r
    simp only [Finset.mem_filter, Finset.mem_Ico]
    constructor
    · intro inside
      have range := (pickIndex_eq_some_iff positive inside.1.1 i).mp inside.2
      omega
    · intro inside
      have low : 0 ≤ r := before.trans inside.1
      exact ⟨⟨low, by omega⟩,
        (pickIndex_eq_some_iff positive low i).mpr ⟨listed, by omega, by omega⟩⟩
  rw [same, Int.card_Ico, part]
  omega

section Rounds

variable {weights : List TenantWeight} {heap : Heap TenantWeight} {tenants : Slice}
  {s s' : Shuffle} {r : Int}

/-- What holds between any two rounds. -/
structure Shuffle.Kept (heap : Heap TenantWeight) (weights : List TenantWeight) (s : Shuffle) :
    Prop where
  fits : s.remaining.Fits s.heap
  -- The loop works on a block of its own, and the others stay as they were.
  own : s.remaining.block = heap.length
  others : ∀ block < heap.length, s.heap.getD block [] = heap.getD block []
  drawn : ∀ t ∈ s.left, t ∈ weights

/-- As many tenants are left as the slice is long. -/
theorem Shuffle.Kept.length_left (kept : s.Kept heap weights) :
    s.left.length = s.remaining.length := kept.fits.length_read

/-- The loop starts on a copy of the caller's slice. -/
theorem Shuffle.start_spec (fits : tenants.Fits heap) :
    Kept heap (tenants.read heap) (start tenants heap) ∧
      (start tenants heap).left = tenants.read heap ∧
      (start tenants heap).remaining.length = tenants.length := by
  have made : (heap.make (⟨0, 0⟩ : TenantWeight) tenants.length).1.Fits
      (heap.make (⟨0, 0⟩ : TenantWeight) tenants.length).2 := Heap.make_fits _ _
  -- The new block leaves what the caller's slice shows.
  have shown : tenants.read (heap.make (⟨0, 0⟩ : TenantWeight) tenants.length).2 =
      tenants.read heap := by
    rw [Slice.read, Slice.read, Heap.make, Heap.getD_alloc fits.inside]
  have same : (tenants.read (heap.make (⟨0, 0⟩ : TenantWeight) tenants.length).2).length =
      tenants.length := by rw [shown, fits.length_read]
  obtain ⟨fits', copied⟩ := Heap.copy_spec made same
  have left : (start tenants heap).left = tenants.read heap := copied.trans shown
  refine ⟨⟨fits', rfl, ?_, by simp [left]⟩, left, rfl⟩
  intro block old
  have apart : block ≠ heap.length := Nat.ne_of_lt old
  exact (Heap.getD_write_of_ne apart _ _).trans (Heap.getD_alloc old _)

/-- A round takes out the tenant on which its draw falls. -/
theorem Shuffle.Kept.round (kept : s.Kept heap weights) (made : s.round? r = some s') :
    s'.Kept heap weights ∧ (0 ≤ r ∧ r < totalWeight s.left) ∧
      s'.remaining.length + 1 = s.remaining.length ∧
      ∃ i t, pickIndex r 0 s.left = some i ∧ s.left[i]? = some t ∧
        s'.left = s.left.eraseIdx i ∧ s'.out = s.out ++ [t.id] := by
  rw [round?] at made
  by_cases ended : s.remaining.length = 0
  · rw [if_pos ended] at made
    cases made
  · rw [if_neg ended] at made
    by_cases admissible : 0 ≤ r ∧ r < totalWeight s.left
    · rw [if_pos admissible] at made
      have high : r < 0 + totalWeight s.left := by omega
      obtain ⟨i, falls⟩ := exists_pickIndex 0 admissible.1 high
      have listed := pickIndex_lt falls
      have found := List.getElem?_eq_getElem listed
      rw [kept.length_left] at listed
      simp only [falls, found, Option.some.injEq] at made
      obtain ⟨shape, fits, shown, -, others⟩ := Heap.delete_spec kept.fits listed
      subst made
      refine ⟨⟨fits, ?_, ?_, ?_⟩, admissible, ?_, i, _, falls, found, shown, rfl⟩
      · exact (congrArg Slice.block shape).trans kept.own
      · intro block old
        rw [← kept.others block old]
        exact others block (by rw [kept.own]; exact Nat.ne_of_lt old)
      · intro t member
        rw [left, shown] at member
        exact kept.drawn t (List.mem_of_mem_eraseIdx member)
      · have shorter := congrArg Slice.length shape
        simp only [Slice.upTo] at shorter
        dsimp only
        omega
    · rw [if_neg admissible] at made
      cases made

/-- Any admissible number falls on one tenant and makes a round. -/
theorem Shuffle.Kept.exists_round (kept : s.Kept heap weights) (low : 0 ≤ r)
    (high : r < totalWeight s.left) :
    (∃! i, pickIndex r 0 s.left = some i) ∧ ∃ s', s.round? r = some s' := by
  have admissible : r < 0 + totalWeight s.left := by omega
  obtain ⟨i, falls⟩ := exists_pickIndex 0 low admissible
  refine ⟨⟨i, falls, fun j other => ?_⟩, ?_⟩
  · rw [falls, Option.some.injEq] at other
    exact other.symm
  · have listed := pickIndex_lt falls
    rw [kept.length_left] at listed
    have more : ¬ s.remaining.length = 0 := by omega
    simp [round?, more, low, high, falls]

/-- The rounds of the loop, on any numbers that `rand.Intn` may draw. -/
def Shuffle.Rounds (tenants : Slice) (heap : Heap TenantWeight) (past : List (Step Shuffle Int))
    (s : Shuffle) : Prop :=
  Run (fun s r s' => s.round? r = some s') (start tenants heap) past s

/-- One tenant goes in every round, the way the shuffle of the list goes. -/
theorem Shuffle.Rounds.kept (fits : tenants.Fits heap) {past : List (Step Shuffle Int)}
    (run : Rounds tenants heap past s) :
    s.Kept heap (tenants.read heap) ∧ past.length + s.remaining.length = tenants.length ∧
      ∀ draws, weightedShuffle (past.map Step.label ++ draws) (tenants.read heap) =
        (weightedShuffle draws s.left).map (s.out ++ ·) := by
  obtain ⟨kept, left, length⟩ := start_spec fits
  refine run.history (fun past s => s.Kept heap (tenants.read heap) ∧
    past.length + s.remaining.length = tenants.length ∧
      ∀ draws, weightedShuffle (past.map Step.label ++ draws) (tenants.read heap) =
        (weightedShuffle draws s.left).map (s.out ++ ·)) ?_ ?_
  · refine ⟨kept, by simp [length], fun draws => ?_⟩
    rw [left]
    simp [start]
  · intro past s r s' _ before made
    obtain ⟨kept, rounds, shuffled⟩ := before
    obtain ⟨kept', admissible, shorter, i, t, falls, found, left, out⟩ := kept.round made
    refine ⟨kept', by simp; omega, fun draws => ?_⟩
    rw [List.map_append, List.append_assoc, shuffled]
    -- The list function makes the same round on the number that was drawn.
    have nonempty : s.left ≠ [] := by
      intro empty
      rw [empty] at found
      cases found
    obtain ⟨first, rest, split⟩ := List.exists_cons_of_ne_nil nonempty
    have picked : pick r 0 s.left = some (t.id, s.left.eraseIdx i) := by
      rw [pick_eq, falls, Option.bind_some, found]
      rfl
    rw [split] at picked admissible
    rw [List.map_singleton, List.singleton_append, split, weightedShuffle, if_pos admissible,
      picked, left, out, split]
    simp [Option.map_map, Function.comp_def]

/-- How the loop stands between any two rounds. -/
structure Shuffle.Sound (rows : List Tenant) (tenants : Slice) (past : List (Step Shuffle Int))
    (s : Shuffle) : Prop where
  -- The caller's slice shows what it showed before.
  caller : tenants.read s.heap = loadTenants rows
  -- Every round takes one tenant out, and the loop ends when none is left.
  rounds : past.length + s.remaining.length = rows.length
  order : (s.out ++ s.left.map TenantWeight.id).Perm (rows.map Tenant.id)
  result : s.remaining.length = 0 →
    weightedShuffle (past.map Step.label) (loadTenants rows) = some s.out
  -- Otherwise the argument of `rand.Intn` is positive, and any number that it draws will do.
  argument : s.remaining.length ≠ 0 → 0 < totalWeight s.left
  selects : ∀ r, 0 ≤ r → r < totalWeight s.left →
    (∃! i, pickIndex r 0 s.left = some i) ∧ ∃ s', s.round? r = some s'
  share : ∀ i t, s.left[i]? = some t →
    (((Finset.Ico 0 (totalWeight s.left)).filter fun r => pickIndex r 0 s.left = some i).card :
      Int) = t.weight
  -- The sum of the weights is far from wrapping around.
  exact : rows.length ≤ 2 ^ 32 → (∀ t ∈ rows, fitsInt t.weight = true) →
    totalWeight s.left < 2 ^ 63

/-- What a worker makes of weights from an `INT` column still fits one. -/
theorem loadTenants_fits {rows : List Tenant} (fits : ∀ t ∈ rows, fitsInt t.weight = true)
    {t : TenantWeight} (loaded : t ∈ loadTenants rows) : t.weight ≤ 2147483647 := by
  obtain ⟨row, stored, rfl⟩ := List.mem_map.mp loaded
  have bound := (of_decide_eq_true (fits row stored)).2
  dsimp only
  split <;> omega

/--
The shuffle is fair and ends, whatever numbers are drawn and whatever weights are stored.

Between any two rounds of any run each draw falls on exactly one of the tenants that are left, and
on each of them as often as its weight says.
-/
theorem weightedShuffle_sound {rows : List Tenant} (fits : tenants.Fits heap)
    (loaded : tenants.read heap = loadTenants rows) {past : List (Step Shuffle Int)}
    (run : Shuffle.Rounds tenants heap past s) : s.Sound rows tenants past := by
  obtain ⟨kept, rounds, shuffled⟩ := run.kept fits
  rw [loaded] at kept shuffled
  have length : tenants.length = rows.length := by
    rw [← fits.length_read, loaded, loadTenants, List.length_map]
  -- All weights are positive, the ones that replace what is stored included.
  have positive : ∀ t ∈ s.left, 0 < t.weight :=
    fun t listed => loadTenants_positive rows t (kept.drawn t listed)
  have ids : (loadTenants rows).map TenantWeight.id = rows.map Tenant.id := by
    simp [loadTenants]
  constructor
  · rw [← loaded]
    simp only [Slice.read, kept.others tenants.block fits.inside]
  · rw [rounds, length]
  · -- Some draws would take the tenants that are left in the order they stand in.
    obtain ⟨draws, ordered⟩ := exists_draws positive (List.Perm.refl (s.left.map TenantWeight.id))
    have finished := shuffled draws
    rw [ordered, Option.map_some] at finished
    rw [← ids]
    exact weightedShuffle_perm finished
  · intro ended
    have empty : s.left = [] := List.eq_nil_of_length_eq_zero (kept.length_left.trans ended)
    have finished := shuffled []
    rw [List.append_nil, empty] at finished
    rw [finished]
    simp [weightedShuffle]
  · intro more
    rw [← kept.length_left] at more
    exact totalWeight_pos positive (List.ne_nil_of_length_pos (by omega))
  · intro r low high
    exact kept.exists_round low high
  · intro i t found
    exact card_pickIndex positive found
  · intro few small
    have less : s.left.length ≤ 2 ^ 32 := by
      rw [kept.length_left]
      omega
    exact totalWeight_lt less fun t listed => loadTenants_fits small (kept.drawn t listed)

end Rounds

/-- Two tenants, one of which has no weight of its own. -/
def unweightedTenants : List Tenant :=
  [⟨1, "a", "key-a", 10, 0, "active"⟩, ⟨2, "b", "key-b", 10, 3, "active"⟩]

/-- The slice of a worker that has loaded them. -/
def loadedSlice : Slice := ⟨0, 0, 2, 2⟩

/-- Both rounds, with the largest number that can be drawn in each. -/
def highestDraws : List (Step Shuffle Int) :=
  trace (fun s r => (s.round? r).getD s) (Shuffle.start loadedSlice [loadTenants unweightedTenants])
    [102, 99]

theorem weightedShuffle_sound_unweighted :
    ∃ s : Shuffle, s.out = [2, 1] ∧ s.Sound unweightedTenants loadedSlice highestDraws := by
  have run := run_of_some Shuffle.round? [102, 99]
    (Shuffle.start loadedSlice [loadTenants unweightedTenants]) (by decide +kernel)
  have fits : loadedSlice.Fits [loadTenants unweightedTenants] :=
    ⟨by decide, by decide, by decide⟩
  exact ⟨_, by decide +kernel, weightedShuffle_sound fits (by decide) run⟩

end Sluice
