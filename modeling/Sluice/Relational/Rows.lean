import Mathlib.Data.List.Forall2
import Mathlib.Data.List.Nodup

/-! Rows without constraints: updates that can fail, and lists rewritten row by row. -/

namespace Relational

/--
An update whose new values may be out of range.

The statement fails as a whole when one of the rows it touches has no new value.
-/
def updateRows? {ρ : Type} (holds : ρ → Bool) (set : ρ → Option ρ) : List ρ → Option (List ρ)
  | [] => some []
  | row :: rest =>
    (if holds row then set row else some row).bind fun row' =>
      (updateRows? holds set rest).map fun rest' => row' :: rest'

/-- A successful update rewrites the rows it touches and keeps the others, row by row. -/
theorem updateRows?_forall₂ {ρ : Type} {holds : ρ → Bool} {set : ρ → Option ρ}
    {rows rows' : List ρ} (updated : updateRows? holds set rows = some rows') :
    List.Forall₂ (fun row row' => if holds row then set row = some row' else row' = row)
      rows rows' := by
  -- The statement goes through the rows from the front.
  induction rows generalizing rows' with
  | nil =>
    cases updated
    exact .nil
  | cons row rest ih =>
    -- Both the new row and the updated rest exist, or the statement would have failed.
    simp only [updateRows?, Option.bind_eq_some_iff, Option.map_eq_some_iff] at updated
    obtain ⟨row', new, rest', tail, rfl⟩ := updated
    refine .cons ?_ (ih tail)
    by_cases hit : holds row
    · simpa [hit] using new
    · simpa [hit, eq_comm] using new

/-- An update that touches nothing succeeds and changes nothing. -/
theorem updateRows?_of_none {ρ : Type} {holds : ρ → Bool} {set : ρ → Option ρ} {rows : List ρ}
    (missed : ∀ row ∈ rows, holds row = false) : updateRows? holds set rows = some rows := by
  induction rows with
  | nil => rfl
  | cons row rest ih =>
    -- The first row is kept as it is, and no later one is touched either.
    have tail := ih fun other listed => missed other (List.mem_cons_of_mem row listed)
    simp [updateRows?, missed row List.mem_cons_self, tail]

/-- An update fails exactly when a row it touches has no new value. -/
theorem updateRows?_eq_none_iff {ρ : Type} {holds : ρ → Bool} {set : ρ → Option ρ}
    {rows : List ρ} :
    updateRows? holds set rows = none ↔ ∃ row ∈ rows, holds row = true ∧ set row = none := by
  induction rows with
  | nil => simp [updateRows?]
  | cons row rest ih =>
    rw [List.exists_mem_cons_iff, ← ih]
    -- The first row decides, unless it has a new value or is not touched.
    by_cases hit : holds row = true
    · cases new : set row <;> simp [updateRows?, hit, new]
    · simp [updateRows?, hit]

section Rewrite

variable {ρ : Type} {change : ρ → ρ → Prop} {rows rows' : List ρ}

/-- Every change starts from a row that was there. -/
theorem listed_of_forall₂ (steps : List.Forall₂ change rows rows') :
    List.Forall₂ (fun row row' => row ∈ rows ∧ change row row') rows rows' :=
  (List.forall₂_and_left rows rows').mpr ⟨fun _ listed => listed, steps⟩

/-- A column that no row's change touches stays as it is. -/
theorem map_of_forall₂ {γ : Type} {column : ρ → γ} (steps : List.Forall₂ change rows rows')
    (kept : ∀ row row', change row row' → column row' = column row) :
    rows'.map column = rows.map column := by
  -- Both lists are walked in step.
  induction steps with
  | nil => rfl
  | cons step _ ih => rw [List.map_cons, List.map_cons, kept _ _ step, ih]

/-- Every rewritten row comes from one that was there. -/
theorem mem_of_forall₂ (steps : List.Forall₂ change rows rows') {row' : ρ}
    (listed : row' ∈ rows') : ∃ row ∈ rows, change row row' := by
  -- The row stands at some place, and its origin at the same place.
  induction steps with
  | nil => cases listed
  | cons step _ ih =>
    rcases List.mem_cons.mp listed with rfl | later
    · exact ⟨_, List.mem_cons_self, step⟩
    · obtain ⟨row, member, made⟩ := ih later
      exact ⟨row, List.mem_cons_of_mem _ member, made⟩

/-- The row at each place is rewritten in its place. -/
theorem getElem?_of_forall₂ (steps : List.Forall₂ change rows rows') {n : Nat} {row : ρ}
    (stored : rows[n]? = some row) : ∃ row', rows'[n]? = some row' ∧ change row row' := by
  -- No rewrite moves, adds, or removes a row.
  induction steps generalizing n with
  | nil => cases stored
  | cons step _ ih =>
    cases n with
    | zero =>
      cases stored
      exact ⟨_, rfl, step⟩
    | succ n => exact ih stored

/-- Only rows that are already counted, or that a change can add, are counted afterwards. -/
theorem countP_of_forall₂ (counted added : ρ → Bool) (steps : List.Forall₂ change rows rows')
    (source : ∀ row row', change row row' → counted row' = true →
      counted row = true ∨ added row = true) :
    rows'.countP counted ≤ rows.countP counted + rows.countP added := by
  induction steps with
  | nil => simp
  | @cons row row' _ _ step _ ih =>
    rw [List.countP_cons, List.countP_cons, List.countP_cons]
    -- A row that counts now counted before or is one of those that a change can add.
    by_cases new : counted row' = true
    · rcases source row row' step new with old | extra
      · simp only [new, old, if_true]
        omega
      · simp only [new, extra, if_true]
        omega
    · simp only [new, Bool.false_eq_true, if_false]
      omega

end Rewrite

end Relational
