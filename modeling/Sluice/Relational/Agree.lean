import Mathlib.Data.List.Pairwise
import Sluice.Relational.Query
import Sluice.Relational.Table

/-! Tables with the same rows of a kind, and the statements that cannot tell them apart. -/

namespace Relational

variable {κ υ ρ : Type} {key : ρ → κ} {index : ρ → Option υ}

/-- The answers to a query depend on the selected rows alone. -/
theorem Query.answers_congr {q : Query ρ} {rows rows' : List ρ}
    (same : (rows.filter q.holds).Perm (rows'.filter q.holds)) (answer : List ρ) :
    q.Answers rows answer ↔ q.Answers rows' answer := by
  constructor
  · rintro ⟨sorted, arranged, rest⟩
    exact ⟨sorted, arranged.trans same, rest⟩
  · rintro ⟨sorted, arranged, rest⟩
    exact ⟨sorted, arranged.trans same.symm, rest⟩

namespace Table

/-- Two stored rows with the same index entry are one row. -/
theorem eq_of_index {t : Table key index} {row row' : ρ} {u : υ} (stored : row ∈ t.rows)
    (stored' : row' ∈ t.rows) (entry : index row = some u) (entry' : index row' = some u) :
    row = row' := by
  -- The index column has no duplicates among its entries.
  have apart := List.pairwise_filterMap.mp t.indexed
  by_contra differs
  have : Std.Symm fun a b : ρ => ∀ u, index a = some u → ∀ v, index b = some v → u ≠ v :=
    ⟨fun a b clear u here v there => (clear v there u here).symm⟩
  exact apart.forall stored stored' differs u entry u entry' rfl

/-- At most one row has a given index entry. -/
theorem countP_index_le_one [DecidableEq υ] (t : Table key index) (u : υ) :
    t.rows.countP (fun row => index row == some u) ≤ 1 := by
  rw [← List.count_filterMap]
  exact List.nodup_iff_count_le_one.mp t.indexed u

/-- A search that can only hit one row finds just that row. -/
theorem select?_eq_some_iff {t : Table key index} {holds : ρ → Bool}
    (single : ∀ row ∈ t.rows, ∀ row' ∈ t.rows, holds row = true → holds row' = true → row = row')
    {row : ρ} : t.select? holds = some row ↔ row ∈ t.rows ∧ holds row = true := by
  constructor
  · intro found
    exact ⟨List.mem_of_find?_eq_some found, List.find?_some found⟩
  · rintro ⟨stored, hit⟩
    cases found : t.select? holds with
    | none => exact absurd hit (List.find?_eq_none.mp found row stored)
    | some other =>
      rw [single other (List.mem_of_find?_eq_some found) row stored (List.find?_some found) hit]

/-- The two tables have the same rows of a kind. -/
def Agree (own : ρ → Bool) (t t' : Table key index) : Prop :=
  ∀ row, own row = true → (row ∈ t.rows ↔ row ∈ t'.rows)

namespace Agree

variable {own holds : ρ → Bool} {t t' : Table key index}

/-- Agreement is symmetric. -/
theorem symm (agree : Agree own t t') : Agree own t' t := fun row mine => (agree row mine).symm

section Confined

variable (agree : Agree own t t') (confined : ∀ row, holds row = true → own row = true)

include agree confined

/-- A condition that only rows of the kind meet selects the same rows. -/
theorem filter_perm : (t.rows.filter holds).Perm (t'.rows.filter holds) := by
  have distinct (t : Table key index) : (t.rows.filter holds).Nodup :=
    (List.Nodup.of_map _ t.keyed).filter _
  refine (List.perm_ext_iff_of_nodup (distinct t) (distinct t')).mpr fun row => ?_
  simp only [List.mem_filter]
  exact and_congr_left fun hit => agree row (confined row hit)

/-- A statement with such a condition touches as many rows. -/
theorem affected_eq : t.affected holds = t'.affected holds := by
  rw [affected, affected, List.countP_eq_length_filter, List.countP_eq_length_filter]
  exact (agree.filter_perm confined).length_eq

/-- A search with such a condition, which can only hit one row, finds the same. -/
theorem select?_eq (single : ∀ (t : Table key index), ∀ row ∈ t.rows, ∀ row' ∈ t.rows,
    holds row = true → holds row' = true → row = row') : t.select? holds = t'.select? holds := by
  refine Option.ext fun row => ?_
  rw [select?_eq_some_iff (single t), select?_eq_some_iff (single t')]
  exact and_congr_left fun hit => agree row (confined row hit)

/-- An update with such a condition keeps the agreement. -/
theorem update (set : ρ → ρ)
    (keeps : ∀ row, key (set row) = key row ∧ index (set row) = index row) :
    Agree own (t.update holds set keeps) (t'.update holds set keeps) := by
  intro row mine
  simp only [Table.update, List.mem_map]
  refine exists_congr fun source => and_congr_left fun becomes => ?_
  -- The row was of the kind before, since it was touched or is what it was.
  split at becomes
  · rename_i hit
    exact agree source (confined source hit)
  · rw [becomes]
    exact agree row mine

omit confined in
/-- A deletion keeps the agreement. -/
theorem delete : Agree own (t.delete holds) (t'.delete holds) := by
  intro row mine
  simp only [Table.delete, List.mem_filter]
  exact and_congr_left fun _ => agree row mine

end Confined

/-- What a key finds is the same exactly if it is so for the rows of other kinds. -/
theorem find?_eq_iff [DecidableEq κ] (agree : Agree own t t') (k : κ) :
    t.find? k = t'.find? k ↔
      (t.find? k).filter (fun row => !own row) = (t'.find? k).filter fun row => !own row := by
  refine ⟨fun same => by rw [same], fun others => ?_⟩
  have half {t t' : Table key index} (agree : Agree own t t')
      (others : (t.find? k).filter (fun row => !own row) =
        (t'.find? k).filter fun row => !own row) {row : ρ} (found : t.find? k = some row) :
      t'.find? k = some row := by
    cases mine : own row with
    | true =>
      -- A row of the kind is in the other table as well.
      have named := key_of_find? found
      rw [← named] at found ⊢
      exact mem_rows_iff.mp ((agree row mine).mp (mem_rows_iff.mpr found))
    | false =>
      rw [found, Option.filter_some, mine] at others
      exact (Option.filter_eq_some_iff.mp others.symm).1
  refine Option.ext fun row => ⟨half agree others, half agree.symm others.symm⟩

/--
The insertion of a row under a new key meets the same clashes and keeps the agreement, if only rows
of the kind can clash with it in the index.
-/
theorem insert? [DecidableEq κ] [DecidableEq υ] (agree : Agree own t t') (new : ρ)
    (fresh : t.find? (key new) = none) (fresh' : t'.find? (key new) = none)
    (confined : ∀ row u, index new = some u → index row = some u → own row = true) :
    (t.insert? new = none ∧ t'.insert? new = none) ∨
      ∃ u u', t.insert? new = some u ∧ t'.insert? new = some u' ∧ Agree own u u' := by
  have clash {t t' : Table key index} (agree : Agree own t t') (fresh : t.find? (key new) = none)
      (taken : t.clashes new = true) : t'.clashes new = true := by
    obtain ⟨row, stored, hit⟩ := List.any_eq_true.mp taken
    refine List.any_eq_true.mpr ⟨row, ?_, hit⟩
    rcases Bool.or_eq_true_iff.mp hit with same | entry
    · exact absurd same (List.find?_eq_none.mp fresh row stored)
    · rw [Bool.and_eq_true, beq_iff_eq, Option.isSome_iff_exists] at entry
      obtain ⟨⟨u, here⟩, there⟩ := entry
      exact (agree row (confined row u here (there.trans here))).mp stored
  cases taken : t.clashes new with
  | true =>
    have taken' := clash agree fresh taken
    exact .inl ⟨by simp [Table.insert?, taken], by simp [Table.insert?, taken']⟩
  | false =>
    have clear : t'.clashes new = false :=
      Bool.eq_false_iff.mpr fun taken' => by simp [clash agree.symm fresh' taken'] at taken
    obtain ⟨u, stored, rows⟩ := exists_insert_of_clear taken
    obtain ⟨u', stored', rows'⟩ := exists_insert_of_clear clear
    refine .inr ⟨u, u', stored, stored', fun row mine => ?_⟩
    rw [rows, rows', List.mem_append, List.mem_append]
    exact or_congr_left (agree row mine)

end Agree

/-- Every row that is not of a kind stands as it stood. -/
def Spares (own : ρ → Bool) (t t' : Table key index) : Prop :=
  t'.rows.filter (fun row => !own row) = t.rows.filter fun row => !own row

namespace Spares

variable {own holds : ρ → Bool} {t t' : Table key index}

/-- An update of rows of the kind, which stay of the kind, spares the others. -/
theorem update (confined : ∀ row, holds row = true → own row = true) {set : ρ → ρ}
    (stays : ∀ row, own row = true → own (set row) = true)
    (keeps : ∀ row, key (set row) = key row ∧ index (set row) = index row) :
    Spares own t (t.update holds set keeps) := by
  unfold Spares Table.update
  dsimp only
  induction t.rows with
  | nil => rfl
  | cons row rows ih =>
    rw [List.map_cons, List.filter_cons, List.filter_cons, ih]
    split
    · rename_i hit
      simp [confined row hit, stays row (confined row hit)]
    · rfl

/-- A deletion of rows of the kind spares the others. -/
theorem delete (confined : ∀ row, holds row = true → own row = true) :
    Spares own t (t.delete holds) := by
  unfold Spares Table.delete
  rw [List.filter_filter]
  refine List.filter_congr fun row _ => ?_
  cases hit : holds row with
  | true => simp [confined row hit]
  | false => simp

/-- A new row of the kind spares the others. -/
theorem insert [DecidableEq κ] [DecidableEq υ] {new : ρ} (stored : t.insert? new = some t')
    (mine : own new = true) : Spares own t t' := by
  unfold Spares
  rw [(insert?_inv stored).1, List.filter_append]
  simp [mine]

end Spares

end Table

/-- Rows of one kind stand as they stood if all that are not of another kind do. -/
theorem filter_eq_of_spared {own mine : ρ → Bool} {rows rows' : List ρ}
    (spared : rows'.filter (fun row => !own row) = rows.filter fun row => !own row)
    (foreign : ∀ row, mine row = true → own row = false) :
    rows'.filter mine = rows.filter mine := by
  -- A row of the one kind survives the filter for the other.
  have through : ∀ rows : List ρ,
      rows.filter mine = (rows.filter fun row => !own row).filter mine := by
    intro rows
    rw [List.filter_filter]
    refine List.filter_congr fun row _ => ?_
    cases hit : mine row with
    | true => simp [foreign row hit]
    | false => simp
  rw [through rows', spared, ← through rows]

end Relational
