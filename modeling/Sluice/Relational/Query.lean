import Mathlib.Data.List.Sort
import Mathlib.Data.List.Nodup

/-! Ordered, limited queries: what an answer may look like, and one way to compute it. -/

namespace Relational

/-- A `SELECT … WHERE … ORDER BY … OFFSET … LIMIT …` over the rows of one table. -/
structure Query (ρ : Type) where
  holds : ρ → Bool
  -- Whether a row may stand before another, which leaves the order of ties open.
  before : ρ → ρ → Bool
  offset : Nat
  limit : Option Nat

namespace Query

variable {ρ : Type}

/-- The part of an ordered answer between the offset and the limit. -/
def cut (q : Query ρ) (sorted : List ρ) : List ρ :=
  match q.limit with
  | none => sorted.drop q.offset
  | some n => (sorted.drop q.offset).take n

/-- A list is an answer when it cuts off some admissible ordering of the selected rows. -/
def Answers (q : Query ρ) (rows answer : List ρ) : Prop :=
  -- Ties may come in any order, so every sorted arrangement counts.
  ∃ sorted : List ρ, sorted.Perm (rows.filter q.holds) ∧
    sorted.Pairwise (fun a b => q.before a b = true) ∧ answer = q.cut sorted

/-- The other selected rows that may come before a row. -/
def ahead [DecidableEq ρ] (q : Query ρ) (row other : ρ) : Bool :=
  (q.before other row && other != row) && q.holds other

/-- The answer that keeps ties in storage order. -/
def run (q : Query ρ) (rows : List ρ) : List ρ :=
  q.cut ((rows.filter q.holds).insertionSort fun a b => q.before a b = true)

/-- The computed answer is an answer, for an order that compares and chains all rows. -/
theorem run_answers (q : Query ρ) (rows : List ρ)
    (total : ∀ a b, q.before a b = true ∨ q.before b a = true)
    (trans : ∀ a b c, q.before a b = true → q.before b c = true → q.before a c = true) :
    q.Answers rows (q.run rows) := by
  -- Insertion sort permutes the selected rows into an admissible order.
  have : Std.Total fun a b => q.before a b = true := ⟨total⟩
  have : IsTrans ρ fun a b => q.before a b = true := ⟨trans⟩
  exact ⟨_, List.perm_insertionSort _ _, List.pairwise_insertionSort _ _, rfl⟩

/-- Cutting never invents a row. -/
theorem cut_sublist (q : Query ρ) (sorted : List ρ) : (q.cut sorted).Sublist sorted := by
  -- Dropping and taking both select a part of the list in its order.
  unfold cut
  split
  · exact List.drop_sublist _ _
  · exact (List.take_sublist _ _).trans (List.drop_sublist _ _)

/-- Every answered row is stored and satisfies the condition. -/
theorem Answers.sound {q : Query ρ} {rows answer : List ρ} (answers : q.Answers rows answer)
    {row : ρ} (listed : row ∈ answer) : row ∈ rows ∧ q.holds row = true := by
  obtain ⟨sorted, arranged, -, rfl⟩ := answers
  -- An answered row survives back through the cut and the reordering to the selection.
  exact List.mem_filter.mp (arranged.mem_iff.mp ((q.cut_sublist sorted).subset listed))

/-- An answer lists no stored row twice. -/
theorem Answers.nodup_map {κ : Type} {q : Query ρ} {rows answer : List ρ} {key : ρ → κ}
    (answers : q.Answers rows answer) (keyed : (rows.map key).Nodup) :
    (answer.map key).Nodup := by
  obtain ⟨sorted, arranged, -, rfl⟩ := answers
  -- Selecting, reordering, and cutting all preserve the absence of duplicate keys.
  have selected : ((rows.filter q.holds).map key).Nodup :=
    (List.filter_sublist.map key).nodup keyed
  exact ((q.cut_sublist sorted).map key).nodup ((arranged.map key).nodup_iff.mpr selected)

/-- A first page whose limit covers the selection loses no row of it. -/
theorem Answers.complete {q : Query ρ} {rows answer : List ρ} (answers : q.Answers rows answer)
    (first : q.offset = 0) (room : ∀ n, q.limit = some n → rows.countP q.holds ≤ n) {row : ρ}
    (stored : row ∈ rows) (hit : q.holds row = true) : row ∈ answer := by
  obtain ⟨sorted, arranged, -, rfl⟩ := answers
  -- The row is in every ordering of the selection, so only the cut could lose it.
  have present : row ∈ sorted := arranged.mem_iff.mpr (List.mem_filter.mpr ⟨stored, hit⟩)
  rw [cut, first, List.drop_zero]
  split
  · exact present
  · -- The sorted selection is no longer than the limit, so the cut keeps all of it.
    rename_i n limited
    have short : sorted.length ≤ n := by
      rw [arranged.length_eq, ← List.countP_eq_length_filter]
      exact room n limited
    rwa [List.take_of_length_le short]

/-- An answer lists no more rows of a kind than the selection has. -/
theorem Answers.countP_le {q : Query ρ} {rows answer : List ρ} (answers : q.Answers rows answer)
    (kind : ρ → Bool) : answer.countP kind ≤ rows.countP fun row => kind row && q.holds row := by
  obtain ⟨sorted, arranged, -, rfl⟩ := answers
  calc (q.cut sorted).countP kind ≤ sorted.countP kind := (q.cut_sublist sorted).countP_le
    _ = (rows.filter q.holds).countP kind := arranged.countP_eq kind
    _ = rows.countP fun row => kind row && q.holds row := List.countP_filter

section Limited

variable {q : Query ρ} {rows : List ρ} {row : ρ} {n : Nat} (first : q.offset = 0)
  (limited : q.limit = some n) (stored : row ∈ rows) (hit : q.holds row = true)

include first limited stored hit

/-- A selected row is left out of a first page only if the page is full of rows before it. -/
theorem Answers.crowded {answer : List ρ} (answers : q.Answers rows answer)
    (omitted : row ∉ answer) : answer.length = n ∧ ∀ other ∈ answer, q.before other row = true := by
  obtain ⟨sorted, arranged, ordered, rfl⟩ := answers
  have cut : q.cut sorted = sorted.take n := by simp [Query.cut, limited, first]
  rw [cut] at omitted ⊢
  -- The row stands somewhere in the ordering, and the cut ends before it.
  obtain ⟨front, back, rfl⟩ :=
    List.append_of_mem (arranged.mem_iff.mpr (List.mem_filter.mpr ⟨stored, hit⟩))
  have short : n ≤ front.length := by
    by_contra long
    refine omitted (List.mem_take_iff_getElem.mpr ⟨front.length, ?_, by simp⟩)
    simp only [List.length_append, List.length_cons]
    omega
  rw [List.take_append_of_le_length short]
  refine ⟨List.length_take_of_le short, fun other listed => ?_⟩
  exact (List.pairwise_append.mp ordered).2.2 other (List.mem_of_mem_take listed) row
    List.mem_cons_self

variable [DecidableEq ρ]

/-- A selected row is on the first page if fewer others than the page holds may come before it. -/
theorem Answers.listed_of_few {answer : List ρ} (answers : q.Answers rows answer)
    (few : rows.countP (q.ahead row) < n) : row ∈ answer := by
  by_contra omitted
  obtain ⟨full, before⟩ := answers.crowded first limited stored hit omitted
  -- The page counts only rows that are ahead.
  have all : answer.countP (fun other => q.before other row && other != row) = n := by
    rw [List.countP_eq_length.mpr, full]
    intro other listed
    have differs : other ≠ row := fun same => omitted (same ▸ listed)
    simp [before other listed, differs]
  have bound := answers.countP_le fun other => q.before other row && other != row
  rw [all] at bound
  exact absurd few (Nat.not_lt.mpr bound)

/-- A row with a full page of others before it may be left out. -/
theorem exists_answer_without (distinct : rows.Nodup)
    (total : ∀ a b, q.before a b = true ∨ q.before b a = true)
    (trans : ∀ a b c, q.before a b = true → q.before b c = true → q.before a c = true)
    (crowd : n ≤ rows.countP (q.ahead row)) : ∃ answer, q.Answers rows answer ∧ row ∉ answer := by
  have : Std.Total fun a b => q.before a b = true := ⟨total⟩
  have : IsTrans ρ fun a b => q.before a b = true := ⟨trans⟩
  -- The other selected rows in order, cut into those that may come before the row and the rest.
  let others := ((rows.filter q.holds).erase row).insertionSort fun a b => q.before a b = true
  let front := others.filter fun other => q.before other row
  let back := others.filter fun other => !q.before other row
  have selected : row ∈ rows.filter q.holds := List.mem_filter.mpr ⟨stored, hit⟩
  have single : (rows.filter q.holds).Nodup := distinct.filter _
  have arranged : others.Perm ((rows.filter q.holds).erase row) := List.perm_insertionSort _ _
  have ordered : others.Pairwise fun a b => q.before a b = true := List.pairwise_insertionSort _ _
  have absent : row ∉ front := fun listed =>
    single.not_mem_erase (arranged.mem_iff.mp (List.mem_of_mem_filter listed))
  have full : n ≤ front.length := by
    refine crowd.trans ?_
    rw [← List.countP_eq_length_filter, arranged.countP_eq, single.erase_eq_filter,
      List.countP_filter, List.countP_filter]
    rfl
  refine ⟨(front ++ row :: back).take n, ⟨front ++ row :: back, ?_, ?_, ?_⟩, ?_⟩
  · have halves : (front ++ back).Perm others := List.filter_append_perm _ _
    exact List.perm_middle.trans (((halves.trans arranged).cons row).trans
      (List.perm_cons_erase selected).symm)
  · refine List.pairwise_append.mpr ⟨ordered.filter _, List.pairwise_cons.mpr
      ⟨fun b later => ?_, ordered.filter _⟩, fun a earlier b later => ?_⟩
    · have behind := (List.mem_filter.mp later).2
      exact (total row b).resolve_right (by simpa using behind)
    · have ahead := (List.mem_filter.mp earlier).2
      rcases List.mem_cons.mp later with rfl | later
      · exact ahead
      · have behind := (List.mem_filter.mp later).2
        exact trans a row b ahead ((total row b).resolve_right (by simpa using behind))
  · simp [cut, limited, first]
  · rw [List.take_append_of_le_length full]
    exact fun listed => absent (List.mem_of_mem_take listed)

end Limited

end Query

end Relational
