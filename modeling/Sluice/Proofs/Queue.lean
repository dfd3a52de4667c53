import Mathlib.Algebra.Order.BigOperators.Group.List
import Sluice.Worker.Loop

/-! What the entries of the lists say, and what a look at a list does to them. -/

namespace Sluice

open Relational

/-- The hexadecimal digits of an identifier, most significant first. -/
def UUID.digits (id : UUID) : List Nat :=
  (List.range 32).map fun i => id.toNat / 16 ^ (31 - i) % 16

/-- Digits written and read again are the same. -/
theorem mapM_hexDigit {values : List Nat} (small : ∀ value ∈ values, value < 16) :
    (values.map Nat.digitChar).mapM hexDigit = some values := by
  -- The sixteen digits are checked one by one.
  have read : ∀ value < 16, hexDigit (Nat.digitChar value) = some value := by decide
  induction values with
  | nil => rfl
  | cons value values ih =>
    rw [List.forall_mem_cons] at small
    simp [read value small.1, ih small.2]

/-- The leading digits of an identifier make up its leading part. -/
theorem UUID.foldl_digits (id : UUID) {k : Nat} (few : k ≤ 32) :
    ((List.range k).map fun i => id.toNat / 16 ^ (31 - i) % 16).foldl (fun n v => n * 16 + v) 0 =
      id.toNat / 16 ^ (32 - k) := by
  -- Every digit that is read shifts the number by one place.
  induction k with
  | zero =>
    have bound : id.toNat < 16 ^ 32 := id.isLt
    exact (Nat.div_eq_of_lt bound).symm
  | succ k ih =>
    rw [List.range_succ, List.map_append, List.foldl_append, ih (by omega), List.map_singleton,
      List.foldl_cons, List.foldl_nil, show 32 - k = (31 - k) + 1 by omega,
      show 32 - (k + 1) = 31 - k by omega, Nat.pow_succ, ← Nat.div_div_eq_div_mul]
    exact Nat.div_add_mod' _ 16

/-- The text of an identifier has thirty-six characters. -/
theorem UUID.length_toString (id : UUID) : id.toString.toList.length = 36 := by
  simp only [UUID.toString, String.toList_ofList]
  rfl

/-- The text of an identifier is read back as the identifier. -/
theorem UUID.parse_toString (id : UUID) : UUID.parse id.toString = some id := by
  -- The text is in the dashed form, whose digits are those of the identifier.
  have text : id.toString.toList = (List.range 32).flatMap fun i =>
      (if i ∈ [8, 12, 16, 20] then ['-'] else []) ++
        [Nat.digitChar (id.toNat / 16 ^ (31 - i) % 16)] := by
    simp [UUID.toString]
  have ascii : id.toString.toList.any (fun c => decide (127 < c.toNat)) = false := by
    have digit : ∀ d < 16, (Nat.digitChar d).toNat ≤ 127 := by decide
    refine List.any_eq_false.mpr fun c listed => ?_
    rw [text, List.mem_flatMap] at listed
    obtain ⟨i, -, listed⟩ := listed
    rcases List.mem_append.mp listed with dash | last
    · split at dash
      · rw [List.mem_singleton.mp dash]
        decide
      · cases dash
    · have bound := digit _ (Nat.mod_lt (id.toNat / 16 ^ (31 - i)) (by decide))
      rw [List.mem_singleton.mp last]
      simpa using bound
  have digits : UUID.ofDashed id.toString.toList =
      UUID.ofHex ((id.digits).map Nat.digitChar) := by
    rw [text]
    rfl
  have small : ∀ value ∈ id.digits, value < 16 := by
    simp [UUID.digits, Nat.mod_lt]
  simp only [UUID.parse, ascii, id.length_toString, Bool.false_eq_true, if_false, if_true, digits,
    UUID.ofHex, mapM_hexDigit small, Option.map_some]
  rw [UUID.digits, id.foldl_digits (Nat.le_refl 32)]
  simp

/-- Reading undoes writing. -/
theorem UUID.parse_comp_toString : UUID.parse ∘ UUID.toString = some := by
  funext id
  rw [Function.comp_apply, UUID.parse_toString]

/-- Different identifiers have different texts. -/
theorem UUID.toString_inj {id id' : UUID} (same : id.toString = id'.toString) : id = id' := by
  -- The common text can be read back as one identifier only.
  have read := id.parse_toString
  rw [same, id'.parse_toString] at read
  exact (Option.some.inj read).symm

/-- The name of a list tells its lane and its tenant. -/
theorem queueKey_inj {bucket bucket' : String} {tenantID tenantID' : UUID}
    (same : queueKey bucket tenantID = queueKey bucket' tenantID') :
    bucket = bucket' ∧ tenantID = tenantID' := by
  have texts := congrArg String.toList same
  simp only [queueKey, String.toList_append] at texts
  -- Both names end in a text of the same length.
  obtain ⟨lanes, tenants⟩ := List.append_inj' texts (by simp [UUID.length_toString])
  exact ⟨String.toList_injective (List.append_inj_left' lanes rfl),
    UUID.toString_inj (String.toList_injective tenants)⟩

/-- The lists that workers scan are not the ones that they move entries to. -/
theorem processingKey_ne {bucket : String} (lane : bucket ∈ priorityBuckets) (workerID : String)
    (tenantID : UUID) : processingKey workerID ≠ queueKey bucket tenantID := by
  -- The two kinds of names differ in their first letter.
  intro same
  have first := congrArg (fun key => key.toList.head?) same
  simp only [priorityBuckets, List.mem_cons, List.not_mem_nil, or_false] at lane
  rcases lane with rfl | rfl | rfl <;> simp [processingKey, queueKey] at first

/-- The lists of a poll cycle are those of the lanes of its tenants. -/
theorem mem_scanKeys {order : List UUID} {key : String} :
    key ∈ scanKeys order ↔
      ∃ tenantID ∈ order, ∃ bucket ∈ priorityBuckets, queueKey bucket tenantID = key := by
  simp [scanKeys, List.mem_flatMap]

/-- A look finds the list empty, or moves its last entry to the worker's processing list. -/
theorem dequeueFrom_spec (workerID key : String) (keys : List String) (redis : Redis) :
    (redis key = [] ∧ dequeueFrom workerID key keys redis = (.scanning keys, redis)) ∨
    ∃ front text, redis key = front ++ [text] ∧
      (dequeueFrom workerID key keys redis).2 =
        (redis.rpop key).lpush (processingKey workerID) text ∧
      ((UUID.parse text = none ∧ (dequeueFrom workerID key keys redis).1 = .scanning keys) ∨
        ∃ id, UUID.parse text = some id ∧ (dequeueFrom workerID key keys redis).1 =
          if id = UUID.nil then .scanning [] else .fetched id) := by
  -- Only the right end of the list matters.
  rcases List.eq_nil_or_concat (redis key) with empty | ⟨front, text, full⟩
  · exact .inl ⟨empty, by simp [dequeueFrom, Redis.lmove, empty]⟩
  · rw [List.concat_eq_append] at full
    refine .inr ⟨front, text, full, ?_⟩
    cases read : UUID.parse text with
    | none => simp [dequeueFrom, Redis.lmove, full, read]
    | some id => simp [dequeueFrom, Redis.lmove, full, read]

/-- Picking a tenant takes it out of those that are left. -/
theorem pick_perm {r cum : Int} {remaining rest : List TenantWeight} {id : UUID}
    (picked : pick r cum remaining = some (id, rest)) :
    (id :: rest.map TenantWeight.id).Perm (remaining.map TenantWeight.id) := by
  -- The tenants that the draw has passed stay in front of the rest.
  induction remaining generalizing cum rest with
  | nil => cases picked
  | cons t remaining ih =>
    rw [pick] at picked
    split at picked
    · cases picked
      exact .refl _
    · obtain ⟨⟨id, left⟩, later, same⟩ := Option.map_eq_some_iff.mp picked
      cases same
      exact (List.Perm.swap _ _ _).trans ((ih later).cons t.id)

/-- A shuffle has every tenant once. -/
theorem weightedShuffle_perm {draws : List Int} {tenants : List TenantWeight} {order : List UUID}
    (shuffled : weightedShuffle draws tenants = some order) :
    order.Perm (tenants.map TenantWeight.id) := by
  -- Each round either picks a tenant or leaves them all to the next one.
  induction draws, tenants using weightedShuffle.induct generalizing order with
  | case1 draws =>
    rw [weightedShuffle] at shuffled
    cases shuffled
    exact .refl _
  | case2 => cases shuffled
  | case3 r draws t rest admissible id left picked ih =>
    rw [weightedShuffle, if_pos admissible, picked] at shuffled
    obtain ⟨later, done, rfl⟩ := Option.map_eq_some_iff.mp shuffled
    exact ((ih done).cons id).trans (pick_perm picked)
  | case4 r draws t rest admissible missed ih =>
    rw [weightedShuffle, if_pos admissible, missed] at shuffled
    exact ih shuffled
  | case5 r draws t rest refused =>
    rw [weightedShuffle, if_neg refused] at shuffled
    cases shuffled

/-- The total weight of a list is that of its first tenant and of the others. -/
@[simp] theorem totalWeight_cons (t : TenantWeight) (rest : List TenantWeight) :
    totalWeight (t :: rest) = t.weight + totalWeight rest := by
  simp [totalWeight]

/-- Positive weights do not sum up to a negative one. -/
theorem totalWeight_nonneg {tenants : List TenantWeight}
    (positive : ∀ t ∈ tenants, 0 < t.weight) : 0 ≤ totalWeight tenants :=
  List.sum_nonneg (by simpa using fun t listed => (positive t listed).le)

/-- The first tenant makes their sum positive. -/
theorem totalWeight_pos {tenants : List TenantWeight} (positive : ∀ t ∈ tenants, 0 < t.weight)
    (nonempty : tenants ≠ []) : 0 < totalWeight tenants := by
  obtain ⟨first, rest, rfl⟩ := List.exists_cons_of_ne_nil nonempty
  obtain ⟨here, others⟩ := List.forall_mem_cons.mp positive
  have sum := totalWeight_nonneg others
  rw [totalWeight_cons]
  lia

/-- Weights from an `INT` column sum up to a 64-bit number, for any number of tenants there is. -/
theorem totalWeight_lt {tenants : List TenantWeight} (few : tenants.length ≤ 2 ^ 32)
    (fits : ∀ t ∈ tenants, t.weight ≤ 2147483647) : totalWeight tenants < 2 ^ 63 := by
  have small : ∀ weight ∈ tenants.map TenantWeight.weight, weight ≤ 2147483647 := by
    simpa using fits
  have sum := List.sum_le_card_nsmul _ _ small
  rw [List.length_map, nsmul_eq_mul] at sum
  rw [totalWeight]
  omega

/-- Some draw falls on any given tenant if all weights are positive. -/
theorem exists_pick {remaining : List TenantWeight} (positive : ∀ t ∈ remaining, 0 < t.weight)
    {id : UUID} (listed : id ∈ remaining.map TenantWeight.id) (cum : Int) :
    ∃ r rest, cum ≤ r ∧ r < cum + totalWeight remaining ∧
      pick r cum remaining = some (id, rest) ∧ ∀ t ∈ rest, 0 < t.weight := by
  induction remaining generalizing cum with
  | nil => cases listed
  | cons t remaining ih =>
    obtain ⟨first, others⟩ := List.forall_mem_cons.mp positive
    have total := totalWeight_cons t remaining
    have rest := totalWeight_nonneg others
    by_cases own : t.id = id
    · -- The smallest admissible number falls on the first tenant.
      refine ⟨cum, remaining, by lia, by lia, ?_, others⟩
      rw [pick, if_pos (by lia), own]
    · have later : id ∈ remaining.map TenantWeight.id := by
        simpa [Ne.symm own] using listed
      obtain ⟨r, left, low, high, picked, kept⟩ := ih others later (cum + t.weight)
      refine ⟨r, t :: left, by lia, by lia, ?_, ?_⟩
      · rw [pick, if_neg (by lia), picked]
        rfl
      · exact List.forall_mem_cons.mpr ⟨first, kept⟩

/-- With positive weights the tenants can come in any order. -/
theorem exists_draws {tenants : List TenantWeight} (positive : ∀ t ∈ tenants, 0 < t.weight)
    {order : List UUID} (permuted : order.Perm (tenants.map TenantWeight.id)) :
    ∃ draws, weightedShuffle draws tenants = some order := by
  induction order generalizing tenants with
  | nil =>
    rw [List.nil_perm, List.map_eq_nil_iff] at permuted
    subst permuted
    exact ⟨[], rfl⟩
  | cons id order ih =>
    cases tenants with
    | nil => exact absurd permuted.length_eq (by simp)
    | cons t tenants =>
      obtain ⟨r, rest, low, high, picked, kept⟩ :=
        exists_pick positive (permuted.subset List.mem_cons_self) 0
      -- The tenants that the draw leaves are those of the rest of the order.
      have others := (permuted.trans (pick_perm picked).symm).cons_inv
      obtain ⟨draws, shuffled⟩ := ih kept others
      refine ⟨r :: draws, ?_⟩
      rw [weightedShuffle, if_pos ⟨low, by simpa using high⟩, picked]
      simp [shuffled]

/-- Stored weights are replaced where they are not positive. -/
theorem loadTenants_positive (tenants : List Tenant) : ∀ t ∈ loadTenants tenants, 0 < t.weight := by
  intro t listed
  obtain ⟨row, -, rfl⟩ := List.mem_map.mp listed
  dsimp only
  split <;> lia

end Sluice
