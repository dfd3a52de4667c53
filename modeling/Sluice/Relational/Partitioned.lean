import Sluice.Relational.Rows

/-! Tables cut into partitions, with a default partition for the rows that no other one takes. -/

namespace Relational

variable {π ρ : Type}

/-- A table with the partition that each of its rows is stored in, or none for the default one. -/
structure Partitioned (takes : π → ρ → Bool) where
  parts : List π
  rows : List (Option π × ρ)
  -- No two partitions would take the same row.
  apart : parts.Pairwise fun p q => ∀ row, ¬(takes p row = true ∧ takes q row = true)
  located : ∀ x ∈ rows, x.1 = parts.find? fun p => takes p x.2

namespace Partitioned

variable {takes : π → ρ → Bool}

/-- A table with a default partition only. -/
def empty : Partitioned takes := ⟨[], [], .nil, by simp⟩

/-- The rows of the table, wherever they are stored. -/
def contents (t : Partitioned takes) : List ρ := t.rows.map Prod.snd

/-- A row that is stored where it belongs is located. -/
theorem located_snoc (t : Partitioned takes) (new : ρ) :
    ∀ x ∈ t.rows ++ [(t.parts.find? fun p => takes p new, new)],
      x.1 = t.parts.find? fun p => takes p x.2 := by
  simp only [List.forall_mem_append, List.forall_mem_singleton, and_true]
  exact t.located

/-- `INSERT`, which stores the row in the partition that takes it. -/
def insert (t : Partitioned takes) (new : ρ) : Partitioned takes where
  parts := t.parts
  rows := t.rows ++ [(t.parts.find? fun p => takes p new, new)]
  apart := t.apart
  located := t.located_snoc new

/-- An insertion adds the row, wherever it is stored. -/
@[simp]
theorem contents_insert (t : Partitioned takes) (new : ρ) :
    (t.insert new).contents = t.contents ++ [new] := by
  simp [insert, contents]

/-- The rows of an update, each of which stays where it is. -/
def updateInPlace (holds : ρ → Bool) (set : ρ → Option ρ) (rows : List (Option π × ρ)) :
    Option (List (Option π × ρ)) :=
  updateRows? (fun x => holds x.2) (fun x => (set x.2).map fun new => (x.1, new)) rows

/-- A row that no partition sees change stays where it belongs. -/
theorem located_update (t : Partitioned takes) {holds : ρ → Bool} {set : ρ → Option ρ}
    (keeps : ∀ row new, set row = some new → ∀ p, takes p new = takes p row)
    {rows : List (Option π × ρ)} (updated : updateInPlace holds set t.rows = some rows) :
    ∀ x ∈ rows, x.1 = t.parts.find? fun p => takes p x.2 := by
  intro x listed
  obtain ⟨old, there, change⟩ := mem_of_forall₂ (updateRows?_forall₂ updated) listed
  have place := t.located old there
  split at change
  · obtain ⟨new, made, rfl⟩ := Option.map_eq_some_iff.mp change
    simp only [keeps old.2 new made]
    exact place
  · rw [change]
    exact place

/-- `UPDATE` of columns that no partition looks at, which fails if a row has no new value. -/
def update? (t : Partitioned takes) (holds : ρ → Bool) (set : ρ → Option ρ)
    (keeps : ∀ row new, set row = some new → ∀ p, takes p new = takes p row) :
    Option (Partitioned takes) :=
  match updated : updateInPlace holds set t.rows with
  | none => none
  | some rows => some ⟨t.parts, rows, t.apart, t.located_update keeps updated⟩

/-- Where the rows are stored makes no difference to what an update does to them. -/
theorem updateInPlace_contents (holds : ρ → Bool) (set : ρ → Option ρ)
    (rows : List (Option π × ρ)) :
    (updateInPlace holds set rows).map (List.map Prod.snd) =
      updateRows? holds set (rows.map Prod.snd) := by
  unfold updateInPlace
  induction rows with
  | nil => rfl
  | cons x rest ih =>
    rw [List.map_cons, updateRows?, updateRows?, ← ih]
    -- The first row has a new value in its place or nowhere.
    by_cases hit : holds x.2 = true
    · cases new : set x.2 <;> simp [hit, Function.comp_def]
    · simp [hit, Function.comp_def]

/-- An update does to the rows what it would do without partitions. -/
theorem contents_update? (t : Partitioned takes) (holds : ρ → Bool) (set : ρ → Option ρ)
    (keeps : ∀ row new, set row = some new → ∀ p, takes p new = takes p row) :
    (t.update? holds set keeps).map contents = updateRows? holds set t.contents := by
  rw [contents, ← updateInPlace_contents]
  unfold update?
  split
  · rename_i failed
    rw [failed]
    rfl
  · rename_i rows updated
    exact (congrArg (Option.map (List.map Prod.snd)) updated).symm

/-- An update makes no partitions. -/
theorem parts_update? {t t' : Partitioned takes} {holds : ρ → Bool} {set : ρ → Option ρ}
    {keeps : ∀ row new, set row = some new → ∀ p, takes p new = takes p row}
    (updated : t.update? holds set keeps = some t') : t'.parts = t.parts := by
  unfold update? at updated
  split at updated
  · cases updated
  · cases updated
    rfl

/-- Whether the default partition holds a row that a partition would take. -/
def blocks (t : Partitioned takes) (p : π) : Bool :=
  t.rows.any fun x => x.1.isNone && takes p x.2

/-- A new partition takes no row that is there, unless it is blocked. -/
theorem located_cons (t : Partitioned takes) {p : π}
    (free : ∀ q ∈ t.parts, ∀ row, ¬(takes p row = true ∧ takes q row = true))
    (unblocked : t.blocks p = false) :
    ∀ x ∈ t.rows, x.1 = (p :: t.parts).find? fun q => takes q x.2 := by
  intro x listed
  have place := t.located x listed
  have passed : ¬takes p x.2 = true := by
    intro taken
    cases stored : x.1 with
    | none =>
      -- The row would have to move out of the default partition.
      have blocked : t.blocks p = true :=
        List.any_eq_true.mpr ⟨x, listed, by rw [stored, taken]; rfl⟩
      rw [unblocked] at blocked
      cases blocked
    | some q =>
      rw [stored] at place
      have found := place.symm
      have other : takes q x.2 = true := by simpa using List.find?_some found
      exact free q (List.mem_of_find?_eq_some found) x.2 ⟨taken, other⟩
  simpa [List.find?_cons, passed] using place

/-- `CREATE TABLE … PARTITION OF`, which fails if the default partition holds one of its rows. -/
def attach? (t : Partitioned takes) (p : π)
    (free : ∀ q ∈ t.parts, ∀ row, ¬(takes p row = true ∧ takes q row = true)) :
    Option (Partitioned takes) :=
  match unblocked : t.blocks p with
  | true => none
  | false => some ⟨p :: t.parts, t.rows, List.pairwise_cons.mpr ⟨free, t.apart⟩,
    t.located_cons free unblocked⟩

/-- A partition is refused exactly if it is blocked. -/
theorem attach?_eq_none_iff {t : Partitioned takes} {p : π}
    {free : ∀ q ∈ t.parts, ∀ row, ¬(takes p row = true ∧ takes q row = true)} :
    t.attach? p free = none ↔ t.blocks p = true := by
  unfold attach?
  split <;> simp_all

/-- A partition that is made comes before the others, and no row moves. -/
theorem attach?_spec {t t' : Partitioned takes} {p : π}
    {free : ∀ q ∈ t.parts, ∀ row, ¬(takes p row = true ∧ takes q row = true)}
    (attached : t.attach? p free = some t') : t'.parts = p :: t.parts ∧ t'.rows = t.rows := by
  unfold attach? at attached
  split at attached
  · cases attached
  · cases attached
    exact ⟨rfl, rfl⟩

/-- A partition is blocked by the rows that it would take, unless they are stored elsewhere. -/
theorem blocks_iff {t : Partitioned takes} {p : π}
    (free : ∀ q ∈ t.parts, ∀ row, ¬(takes p row = true ∧ takes q row = true)) :
    t.blocks p = true ↔ ∃ row ∈ t.contents, takes p row = true := by
  constructor
  · intro blocked
    obtain ⟨x, listed, hit⟩ := List.any_eq_true.mp blocked
    exact ⟨x.2, List.mem_map_of_mem listed, (Bool.and_eq_true_iff.mp hit).2⟩
  · rintro ⟨row, listed, taken⟩
    obtain ⟨x, there, rfl⟩ := List.mem_map.mp listed
    refine List.any_eq_true.mpr ⟨x, there, ?_⟩
    -- No partition that is there takes the row, so it is in the default one.
    have nowhere : t.parts.find? (fun q => takes q x.2) = none :=
      List.find?_eq_none.mpr fun q member other => free q member x.2 ⟨taken, other⟩
    rw [t.located x there, nowhere, taken]
    rfl

/-- The rows in the default partition. -/
def inDefault (t : Partitioned takes) : List ρ :=
  t.rows.filterMap fun x => if x.1.isNone then some x.2 else none

/-- The default partition is empty exactly if every row has a partition that takes it. -/
theorem inDefault_eq_nil_iff {t : Partitioned takes} :
    t.inDefault = [] ↔ ∀ row ∈ t.contents, ∃ p ∈ t.parts, takes p row = true := by
  simp only [inDefault, contents, List.filterMap_eq_nil_iff, List.forall_mem_map]
  refine forall₂_congr fun x listed => ?_
  rw [← List.find?_isSome, ← t.located x listed]
  cases x.1 <;> simp

/-- The rows in the other partitions, which `DROP TABLE` of the default one leaves. -/
def inParts (t : Partitioned takes) : List ρ := (t.rows.filter fun x => x.1.isSome).map Prod.snd

/-- What is in the partitions are the rows that one of them takes. -/
theorem inParts_eq (t : Partitioned takes) :
    t.inParts = t.contents.filter fun row => t.parts.any fun p => takes p row := by
  rw [inParts, contents, List.filter_map]
  congr 1
  refine List.filter_congr fun x listed => ?_
  rw [t.located x listed, Bool.eq_iff_iff, List.find?_isSome, Function.comp_apply,
    List.any_eq_true]

end Partitioned

end Relational
