import Mathlib.Data.List.Nodup
import Mathlib.Data.List.Basic
import Mathlib.Data.List.Perm.Subperm

/-! Tables with a primary key and a unique index, and what row-wise statements do to them. -/

namespace Relational

/-- Rows under a primary key, with a unique index whose missing entries never clash. -/
structure Table {κ υ ρ : Type} (key : ρ → κ) (index : ρ → Option υ) where
  -- The rows stand in storage order, which no statement promises to anyone.
  rows : List ρ
  keyed : (rows.map key).Nodup
  indexed : (rows.filterMap index).Nodup

namespace Table

variable {κ υ ρ : Type} {key : ρ → κ} {index : ρ → Option υ}

/-- Two tables with the same rows are the same table. -/
@[ext] theorem ext_rows {left right : Table key index} (rows : left.rows = right.rows) :
    left = right := by
  -- The two constraints are propositions, so only the rows distinguish tables.
  cases left
  cases right
  simp only at rows
  subst rows
  rfl

/-- Tables are compared by their rows. -/
instance [DecidableEq ρ] : DecidableEq (Table key index) := fun left right =>
  decidable_of_iff (left.rows = right.rows) ⟨ext_rows, fun same => same ▸ rfl⟩

/-- The table without rows. -/
def empty : Table key index := ⟨[], by simp, by simp⟩

/-- A table of rows by number, which their keys and their index entries tell apart. -/
def numbered (n : Nat) (row : Nat → ρ)
    (keys : ∀ i < n, ∀ j < n, key (row i) = key (row j) → i = j)
    (entries : ∀ i < n, ∀ j < n, ∀ u, index (row i) = some u → index (row j) = some u → i = j) :
    Table key index where
  rows := (List.range n).map row
  keyed := by
    rw [List.map_map]
    refine List.nodup_range.map_on fun i listed j listed' same => ?_
    exact keys i (List.mem_range.mp listed) j (List.mem_range.mp listed') same
  indexed := by
    rw [List.filterMap_map]
    refine List.pairwise_filterMap.mpr (List.nodup_range.imp_of_mem ?_)
    rintro i j listed listed' distinct u entry _ entry' rfl
    exact distinct
      (entries i (List.mem_range.mp listed) j (List.mem_range.mp listed') u entry entry')

/-- The rows of a numbered table. -/
@[simp] theorem rows_numbered (n : Nat) (f : Nat → ρ)
    (keys : ∀ i < n, ∀ j < n, key (f i) = key (f j) → i = j)
    (entries : ∀ i < n, ∀ j < n, ∀ u, index (f i) = some u → index (f j) = some u → i = j) :
    (numbered n f keys entries).rows = (List.range n).map f := rfl

/-- The first row that satisfies a condition, as a single-row query reads it. -/
def select? (t : Table key index) (holds : ρ → Bool) : Option ρ := t.rows.find? holds

/-- The row stored under a key. -/
def find? [DecidableEq κ] (t : Table key index) (k : κ) : Option ρ :=
  t.select? fun row => key row == k

/-- How many rows a statement with this condition touches. -/
def affected (t : Table key index) (holds : ρ → Bool) : Nat := t.rows.countP holds

/-- Rewrites the rows that satisfy a condition, leaving the constrained columns alone. -/
def update (t : Table key index) (holds : ρ → Bool) (set : ρ → ρ)
    (keeps : ∀ row, key (set row) = key row ∧ index (set row) = index row) :
    Table key index where
  rows := t.rows.map fun row => if holds row then set row else row
  keyed := by
    -- Neither branch touches the key column.
    have same : (key ∘ fun row => if holds row then set row else row) = key := by
      funext row
      by_cases hit : holds row <;> simp [hit, keeps row]
    rw [List.map_map, same]
    exact t.keyed
  indexed := by
    -- Neither branch touches the indexed columns.
    have same : (index ∘ fun row => if holds row then set row else row) = index := by
      funext row
      by_cases hit : holds row <;> simp [hit, keeps row]
    rw [List.filterMap_map, same]
    exact t.indexed

/-- Removes the rows that satisfy a condition. -/
def delete (t : Table key index) (holds : ρ → Bool) : Table key index where
  rows := t.rows.filter fun row => !holds row
  keyed := (List.filter_sublist.map key).nodup t.keyed
  indexed := (List.filter_sublist.filterMap index).nodup t.indexed

section Insert

variable [DecidableEq κ] [DecidableEq υ]

/-- Whether a row with the same key, or with the same index entry, is already stored. -/
def clashes (t : Table key index) (new : ρ) : Bool :=
  t.rows.any fun row => key row == key new || (index new).isSome && index row == index new

/-- Appends a row, unless it violates the primary key or the unique index. -/
def insert? (t : Table key index) (new : ρ) : Option (Table key index) :=
  if clash : t.clashes new = true then none
  else some {
    rows := t.rows ++ [new]
    keyed := by
      -- A clash-free row carries a key that no stored row has.
      simp only [clashes, List.any_eq_true, not_exists, not_and, Bool.not_eq_true,
        Bool.or_eq_false_iff, beq_eq_false_iff_ne] at clash
      rw [List.map_append, List.map_singleton]
      refine List.nodup_append.mpr ⟨t.keyed, List.nodup_singleton _, ?_⟩
      intro k stored k' last
      obtain ⟨row, member, rfl⟩ := List.mem_map.mp stored
      rw [List.mem_singleton.mp last]
      exact (clash row member).1
    indexed := by
      -- An index entry of the new row, if it has one, belongs to no stored row.
      simp only [clashes, List.any_eq_true, not_exists, not_and, Bool.not_eq_true,
        Bool.or_eq_false_iff] at clash
      rw [List.filterMap_append]
      cases entry : index new with
      | none => simpa [entry] using t.indexed
      | some u =>
        simp only [List.filterMap_cons, entry, List.filterMap_nil]
        refine List.nodup_append.mpr ⟨t.indexed, List.nodup_singleton _, ?_⟩
        intro v stored v' last same
        obtain ⟨row, member, named⟩ := List.mem_filterMap.mp stored
        have differs := (clash row member).2
        simp [entry, named, same, List.mem_singleton.mp last] at differs }

end Insert

/-- A row that clashes with none is appended. -/
theorem exists_insert_of_clear [DecidableEq κ] [DecidableEq υ] {t : Table key index} {new : ρ}
    (clear : t.clashes new = false) :
    ∃ t', t.insert? new = some t' ∧ t'.rows = t.rows ++ [new] := by
  simp [insert?, clear]

/-- Two stored rows with the same key are one row. -/
theorem eq_of_key {t : Table key index} {row row' : ρ} (stored : row ∈ t.rows)
    (stored' : row' ∈ t.rows) (same : key row = key row') : row = row' :=
  -- The key column has no duplicates.
  List.inj_on_of_nodup_map t.keyed stored stored' same

/-- An update that touches no row leaves the table as it was. -/
theorem update_eq_self {t : Table key index} {holds : ρ → Bool} {set : ρ → ρ}
    {keeps : ∀ row, key (set row) = key row ∧ index (set row) = index row}
    (missed : ∀ row ∈ t.rows, holds row = false) : t.update holds set keeps = t := by
  -- Every row falls through to itself.
  apply ext_rows
  have fixed : ∀ row ∈ t.rows, (if holds row then set row else row) = id row :=
    fun row stored => by simp [missed row stored]
  simp only [update, List.map_congr_left fixed, List.map_id]

/-- A deletion that touches no row leaves the table as it was. -/
theorem delete_eq_self {t : Table key index} {holds : ρ → Bool}
    (missed : ∀ row ∈ t.rows, holds row = false) : t.delete holds = t := by
  -- Every row passes the filter.
  apply ext_rows
  exact List.filter_eq_self.mpr fun row stored => by simp [missed row stored]

/-- A condition that counts no row holds of none. -/
theorem missed_of_affected {t : Table key index} {holds : ρ → Bool} (none : t.affected holds = 0) :
    ∀ row ∈ t.rows, holds row = false := by
  -- A single row that satisfied the condition would be counted.
  intro row stored
  simpa using List.countP_eq_zero.mp none row stored

section Find

variable [DecidableEq κ]

/-- A row is stored exactly when its key finds it. -/
theorem mem_rows_iff {t : Table key index} {row : ρ} :
    row ∈ t.rows ↔ t.find? (key row) = some row := by
  constructor
  · intro stored
    -- The search stops at some row with this key, and there is only one.
    cases found : t.find? (key row) with
    | none =>
      have missed := List.find?_eq_none.mp found row stored
      simp at missed
    | some other =>
      have named := List.find?_some found
      have member := List.mem_of_find?_eq_some found
      rw [eq_of_key member stored (by simpa using named)]
  · intro found
    exact List.mem_of_find?_eq_some found

/-- The row found under a key carries that key. -/
theorem key_of_find? {t : Table key index} {k : κ} {row : ρ} (found : t.find? k = some row) :
    key row = k := by
  -- The search stops only at rows that pass its test.
  simpa using List.find?_some found

/-- A query that pins the key reads the row under that key and filters it. -/
theorem select?_of_key {t : Table key index} {holds : ρ → Bool} {k : κ}
    (pins : ∀ row, holds row = true → key row = k) :
    t.select? holds = (t.find? k).filter holds := by
  cases found : t.find? k with
  | none =>
    -- Without a row under the key no row can satisfy the condition.
    refine List.find?_eq_none.mpr fun row stored hit => ?_
    have missed := List.find?_eq_none.mp found row stored
    exact missed (by simp [pins row hit])
  | some row =>
    have stored := mem_rows_iff.mpr ((key_of_find? found).symm ▸ found)
    by_cases hit : holds row = true
    · -- The search cannot stop at another row, which would carry the same key.
      cases located : t.select? holds with
      | none => exact absurd hit (List.find?_eq_none.mp located row stored)
      | some other =>
        have matched := List.find?_some located
        have member := List.mem_of_find?_eq_some located
        have same : key other = key row := by rw [pins other matched, key_of_find? found]
        rw [Option.filter_some, if_pos hit, eq_of_key member stored same]
    · -- Any match would carry the same key and so be the row that fails the condition.
      rw [Option.filter_some, if_neg hit]
      refine List.find?_eq_none.mpr fun other member matched => hit ?_
      rwa [← eq_of_key member stored (by rw [pins other matched, key_of_find? found])]

/-- A condition that pins the key holds of no row when it fails on the row under the key. -/
theorem missed_of_key {t : Table key index} {holds : ρ → Bool} {k : κ}
    (pins : ∀ row, holds row = true → key row = k)
    (missed : ∀ row, t.find? k = some row → holds row = false) :
    ∀ row ∈ t.rows, holds row = false := by
  intro row stored
  by_contra hit
  -- A row that satisfied the condition would be the one found under the key.
  have matched : holds row = true := by simpa using hit
  have found := mem_rows_iff.mp stored
  rw [pins row matched] at found
  simp [missed row found] at matched

/-- The rows under a key are the one row found there, if any. -/
theorem filter_key (t : Table key index) (k : κ) :
    t.rows.filter (fun row => key row == k) = (t.find? k).toList := by
  cases found : t.find? k with
  | none =>
    -- No row passed the test of the search, which is the test of the filter.
    exact List.filter_eq_nil_iff.mpr fun row stored => List.find?_eq_none.mp found row stored
  | some row =>
    -- All selected rows are equal, and the key column has no duplicates.
    have stored := mem_rows_iff.mpr ((key_of_find? found).symm ▸ found)
    refine List.perm_singleton.mp ((List.perm_ext_iff_of_nodup ?_ (List.nodup_singleton _)).mpr ?_)
    · exact (List.Nodup.of_map key t.keyed).filter _
    · intro other
      rw [List.mem_filter, List.mem_singleton, beq_iff_eq]
      constructor
      · rintro ⟨member, named⟩
        exact eq_of_key member stored (by rw [named, key_of_find? found])
      · rintro rfl
        exact ⟨stored, key_of_find? found⟩

/-- A statement that pins the key touches one row or none. -/
theorem affected_of_key {t : Table key index} {holds : ρ → Bool} {k : κ}
    (pins : ∀ row, holds row = true → key row = k) :
    t.affected holds = if ((t.find? k).filter holds).isSome then 1 else 0 := by
  rw [← select?_of_key pins]
  -- Two touched rows would share the key.
  have few : t.affected holds ≤ 1 := by
    rw [affected, List.countP_eq_length_filter]
    by_contra many
    have keys : ((t.rows.filter holds).map key).Nodup := (List.filter_sublist.map key).nodup t.keyed
    match listed : t.rows.filter holds with
    | [] => simp [listed] at many
    | [_] => simp [listed] at many
    | a :: b :: rest =>
      have first : holds a = true := (List.mem_filter.mp (listed ▸ List.mem_cons_self)).2
      have second : holds b = true :=
        (List.mem_filter.mp (listed ▸ List.mem_cons_of_mem a List.mem_cons_self)).2
      simp [listed, pins a first, pins b second] at keys
  cases located : t.select? holds with
  | none =>
    -- A query without an answer leaves nothing to count.
    rw [affected, List.countP_eq_zero.mpr (List.find?_eq_none.mp located)]
    rfl
  | some row =>
    -- The answer itself is counted, and nothing else can be.
    have positive : 0 < t.affected holds := List.countP_pos_iff.mpr
      ⟨row, List.mem_of_find?_eq_some located, List.find?_some located⟩
    simp only [Option.isSome_some, if_true]
    omega

/-- A condition that pins the key and holds of the row under it selects just that row. -/
theorem holds_iff_key {t : Table key index} {holds : ρ → Bool} {k : κ} {row : ρ}
    (pins : ∀ row, holds row = true → key row = k) (found : t.find? k = some row)
    (hit : holds row = true) : ∀ other ∈ t.rows, holds other = (key other == k) := by
  intro other stored
  -- The only stored row with this key is the one that was found.
  by_cases named : key other = k
  · have located := mem_rows_iff.mp stored
    rw [named, found, Option.some.injEq] at located
    rw [← located, hit]
    simpa using key_of_find? found
  · have missed : holds other = false := by
      by_contra hit
      exact named (pins other (by simpa using hit))
    simp [missed, named]

/-- An update that pins the key and meets the row under it is an update of that row. -/
theorem update_of_key {t : Table key index} {holds : ρ → Bool} {set : ρ → ρ} {k : κ} {row : ρ}
    {keeps : ∀ row, key (set row) = key row ∧ index (set row) = index row}
    (pins : ∀ row, holds row = true → key row = k) (found : t.find? k = some row)
    (hit : holds row = true) :
    t.update holds set keeps = t.update (fun row => key row == k) set keeps := by
  -- On the stored rows the two conditions are the same.
  apply ext_rows
  refine List.map_congr_left fun other stored => ?_
  rw [holds_iff_key pins found hit other stored]

/-- The same for a deletion. -/
theorem delete_of_key {t : Table key index} {holds : ρ → Bool} {k : κ} {row : ρ}
    (pins : ∀ row, holds row = true → key row = k) (found : t.find? k = some row)
    (hit : holds row = true) : t.delete holds = t.delete fun row => key row == k := by
  -- On the stored rows the two conditions are the same.
  apply ext_rows
  refine List.filter_congr fun other stored => ?_
  rw [holds_iff_key pins found hit other stored]

/-- Rows that all come from counted rows of another table are no more than those. -/
theorem countP_le {t t' : Table key index} {counted counted' : ρ → Bool}
    (source : ∀ k row', t'.find? k = some row' → counted' row' = true →
      ∃ row, t.find? k = some row ∧ counted row = true) :
    t'.rows.countP counted' ≤ t.rows.countP counted := by
  -- The counted rows are told apart by their keys, and each key occurs on the other side.
  rw [List.countP_eq_length_filter, List.countP_eq_length_filter,
    ← List.length_map key, ← List.length_map key]
  have distinct : ((t'.rows.filter counted').map key).Nodup :=
    (List.filter_sublist.map key).nodup t'.keyed
  refine (distinct.subperm ?_).length_le
  intro k listed
  obtain ⟨row', selected, rfl⟩ := List.mem_map.mp listed
  obtain ⟨stored, hit⟩ := List.mem_filter.mp selected
  obtain ⟨row, found, counts⟩ := source _ row' (mem_rows_iff.mp stored) hit
  rw [← key_of_find? found]
  have member : row ∈ t.rows := mem_rows_iff.mpr (by rwa [key_of_find? found])
  exact List.mem_map_of_mem (List.mem_filter.mpr ⟨member, counts⟩)

/-- An update rewrites the row under each key in place. -/
@[simp] theorem find?_update (t : Table key index) (holds : ρ → Bool) (set : ρ → ρ)
    (keeps : ∀ row, key (set row) = key row ∧ index (set row) = index row) (k : κ) :
    (t.update holds set keeps).find? k =
      (t.find? k).map fun row => if holds row then set row else row := by
  -- The search condition reads only the key, which no rewrite touches.
  simp only [find?, select?, update, List.find?_map]
  congr 2
  funext row
  by_cases hit : holds row <;> simp [hit, keeps row]

/-- Under each key an update either changes nothing or rewrites a row that meets its condition. -/
theorem find?_update_cases (t : Table key index) (holds : ρ → Bool) (set : ρ → ρ)
    (keeps : ∀ row, key (set row) = key row ∧ index (set row) = index row) (k : κ) :
    (t.update holds set keeps).find? k = t.find? k ∨
      ∃ row, t.find? k = some row ∧ holds row = true ∧
        (t.update holds set keeps).find? k = some (set row) := by
  -- Only a stored row that meets the condition is rewritten.
  rw [find?_update]
  cases found : t.find? k with
  | none => exact .inl rfl
  | some row =>
    by_cases hit : holds row = true
    · exact .inr ⟨row, rfl, hit, by simp [hit]⟩
    · exact .inl (by simp [hit])

/-- A deletion forgets the row under a key exactly when it satisfied the condition. -/
@[simp] theorem find?_delete (t : Table key index) (holds : ρ → Bool) (k : κ) :
    (t.delete holds).find? k = (t.find? k).filter fun row => !holds row := by
  -- Among the surviving rows the search is a query that pins the key.
  have pinned : (t.delete holds).find? k = t.select? fun row => !holds row && key row == k := by
    simp only [find?, select?, delete, List.find?_filter, Bool.decide_and, Bool.decide_eq_true]
  rw [pinned, select?_of_key (k := k) (by simp)]
  -- The row under the key passes the key half of that condition.
  cases found : t.find? k with
  | none => rfl
  | some row => simp [Option.filter_some, key_of_find? found]

/-- Under each key a deletion either changes nothing or drops a row that meets its condition. -/
theorem find?_delete_cases (t : Table key index) (holds : ρ → Bool) (k : κ) :
    (t.delete holds).find? k = t.find? k ∨
      ∃ row, t.find? k = some row ∧ holds row = true ∧ (t.delete holds).find? k = none := by
  -- Only a stored row that meets the condition is dropped.
  rw [find?_delete]
  cases found : t.find? k with
  | none => exact .inl rfl
  | some row =>
    by_cases hit : holds row = true
    · exact .inr ⟨row, rfl, hit, by simp [hit]⟩
    · exact .inl (by simp [hit])

/-- A counted row that is counted no more makes the count smaller. -/
theorem countP_lt {t t' : Table key index} {counted counted' : ρ → Bool}
    (source : ∀ k row', t'.find? k = some row' → counted' row' = true →
      ∃ row, t.find? k = some row ∧ counted row = true)
    {k : κ} {row : ρ} (found : t.find? k = some row) (counts : counted row = true)
    (gone : ∀ row', t'.find? k = some row' → counted' row' = false) :
    t'.rows.countP counted' < t.rows.countP counted := by
  -- Without the row under this key the rows counted before are still enough.
  have fewer : t'.rows.countP counted' ≤
      (t.delete fun row => key row == k).rows.countP counted := by
    refine countP_le fun k' row' stored hit => ?_
    obtain ⟨old, located, also⟩ := source k' row' stored hit
    have other : key old ≠ k := by
      intro same
      rw [← key_of_find? located, same] at stored
      simp [gone row' stored] at hit
    exact ⟨old, by simp [located, other], also⟩
  refine Nat.lt_of_le_of_lt fewer ?_
  have stored : row ∈ t.rows := mem_rows_iff.mpr (by rwa [key_of_find? found])
  rw [List.countP_eq_countP_filter_add t.rows counted fun row => !(key row == k)]
  refine Nat.lt_add_of_pos_right (List.countP_pos_iff.mpr ⟨row, ?_, counts⟩)
  exact List.mem_filter.mpr ⟨stored, by simp [key_of_find? found]⟩

/-- An insertion appends the row, and no row had its key before. -/
theorem insert?_inv [DecidableEq υ] {t t' : Table key index} {new : ρ}
    (inserted : t.insert? new = some t') :
    t'.rows = t.rows ++ [new] ∧ ∀ row ∈ t.rows, key row ≠ key new := by
  -- Only the branch without a clash returns a table.
  unfold insert? at inserted
  split at inserted
  · cases inserted
  · rename_i clash
    cases inserted
    simp only [clashes, List.any_eq_true, not_exists, not_and, Bool.not_eq_true,
      Bool.or_eq_false_iff, beq_eq_false_iff_ne] at clash
    exact ⟨rfl, fun row stored => (clash row stored).1⟩

/-- A row can only be inserted under a key that is not taken. -/
theorem find?_of_insert [DecidableEq υ] {t t' : Table key index} {new : ρ}
    (inserted : t.insert? new = some t') : t.find? (key new) = none := by
  obtain ⟨-, free⟩ := insert?_inv inserted
  exact List.find?_eq_none.mpr fun row stored => by simp [free row stored]

/-- After an insertion the new row is found under its key and every other key is unaffected. -/
theorem find?_insert [DecidableEq υ] {t t' : Table key index} {new : ρ}
    (inserted : t.insert? new = some t') (k : κ) :
    t'.find? k = if key new = k then some new else t.find? k := by
  obtain ⟨rows, -⟩ := insert?_inv inserted
  have searched : t'.find? k = (t.find? k).or ([new].find? fun row => key row == k) := by
    simp only [find?, select?, rows, List.find?_append]
  rw [searched]
  by_cases same : key new = k
  · -- No older row has the key, so the search runs through to the new row.
    subst same
    simp [find?_of_insert inserted]
  · simp [same]

/-- Outside the unique index, a row can be inserted under any key that is free. -/
theorem exists_insert [DecidableEq υ] {t : Table key index} {new : ρ}
    (unindexed : index new = none) (free : t.find? (key new) = none) :
    ∃ t', t.insert? new = some t' := by
  have missed := List.find?_eq_none.mp free
  have clear : t.clashes new = false := by
    simp only [clashes, unindexed, Option.isSome_none, Bool.false_and, Bool.or_false]
    exact List.any_eq_false.mpr missed
  obtain ⟨t', inserted, -⟩ := exists_insert_of_clear clear
  exact ⟨t', inserted⟩

/-- Outside the unique index, `ON CONFLICT DO NOTHING` keeps the row that has the key. -/
theorem find?_insert_or_keep [DecidableEq υ] (t : Table key index) {new : ρ}
    (unindexed : index new = none) (k : κ) :
    ((t.insert? new).getD t).find? k = (t.find? k).or (if key new = k then some new else none) := by
  cases inserted : t.insert? new with
  | some t' =>
    rw [Option.getD_some, find?_insert inserted]
    split
    · rename_i same
      rw [← same, find?_of_insert inserted, Option.none_or]
    · rw [Option.or_none]
  | none =>
    -- Only a row with the same key is in the way.
    have clash : t.clashes new = true := by
      by_contra free
      simp [insert?, free] at inserted
    simp only [clashes, unindexed, Option.isSome_none, Bool.false_and, Bool.or_false,
      List.any_eq_true, beq_iff_eq] at clash
    obtain ⟨row, stored, same⟩ := clash
    rw [Option.getD_none]
    split
    · rename_i named
      rw [← named, ← same, mem_rows_iff.mp stored, Option.some_or]
    · rw [Option.or_none]

end Find

end Table

end Relational
