import Sluice.Relational.Table

/-! How the number of rows of a kind changes when some of them stop being of it. -/

namespace Relational.Table

variable {κ υ ρ : Type} {key : ρ → κ} {index : ρ → Option υ} {t t' : Table key index}
  {counted counted' : ρ → Bool} {left : List κ}

/-- The keys of the rows of a kind. -/
def keysOf (t : Table key index) (counted : ρ → Bool) : List κ :=
  (t.rows.filter counted).map key

/-- There are as many keys as rows of a kind. -/
theorem length_keysOf (t : Table key index) (counted : ρ → Bool) :
    (t.keysOf counted).length = t.rows.countP counted := by
  rw [keysOf, List.length_map, List.countP_eq_length_filter]

/-- No two of them are the same. -/
theorem keysOf_nodup (t : Table key index) (counted : ρ → Bool) : (t.keysOf counted).Nodup :=
  (List.filter_sublist.map key).nodup t.keyed

variable [DecidableEq κ]

/-- A key is one of them if its row is of the kind. -/
theorem mem_keysOf {k : κ} :
    k ∈ t.keysOf counted ↔ ∃ row, t.find? k = some row ∧ counted row = true := by
  constructor
  · intro listed
    obtain ⟨row, selected, rfl⟩ := List.mem_map.mp listed
    obtain ⟨stored, hit⟩ := List.mem_filter.mp selected
    exact ⟨row, mem_rows_iff.mp stored, hit⟩
  · rintro ⟨row, found, hit⟩
    have member : row ∈ t.rows := mem_rows_iff.mpr (by rwa [key_of_find? found])
    rw [← key_of_find? found]
    exact List.mem_map_of_mem (List.mem_filter.mpr ⟨member, hit⟩)

/-- Rows that leave a kind, while no row joins it and all others stay, reduce their number. -/
theorem countP_add_length (distinct : left.Nodup) (counts : ∀ k ∈ left, k ∈ t.keysOf counted)
    (others : ∀ k, k ∈ t'.keysOf counted' ↔ k ∈ t.keysOf counted ∧ k ∉ left) :
    t'.rows.countP counted' + left.length = t.rows.countP counted := by
  rw [← length_keysOf, ← length_keysOf, ← List.length_append]
  refine List.Perm.length_eq ((List.perm_ext_iff_of_nodup ?_ (t.keysOf_nodup counted)).mpr ?_)
  · refine List.nodup_append.mpr ⟨t'.keysOf_nodup counted', distinct, ?_⟩
    rintro k there _ gone rfl
    exact ((others k).mp there).2 gone
  · intro k
    rw [List.mem_append, others]
    constructor
    · rintro (⟨there, -⟩ | gone)
      · exact there
      · exact counts k gone
    · intro there
      by_cases gone : k ∈ left
      · exact .inr gone
      · exact .inl ⟨there, gone⟩

end Relational.Table
