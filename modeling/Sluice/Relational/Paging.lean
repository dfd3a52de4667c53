import Sluice.Relational.Query

/-! Reading an ordered answer page by page, with one query for each page. -/

namespace Relational

variable {ρ : Type}

/-- Consecutive pages of a list make up its front. -/
theorem flatMap_pages (l : List ρ) (n k : Nat) :
    (List.range k).flatMap (fun i => (l.drop (i * n)).take n) = l.take (k * n) := by
  induction k with
  | zero => simp
  | succ k ih =>
    rw [List.range_succ, List.flatMap_append, ih, Nat.succ_mul, List.take_add]
    simp

namespace Query

/-- The query for one of the pages. -/
def page (q : Query ρ) (n i : Nat) : Query ρ := { q with offset := i * n, limit := some n }

variable {q : Query ρ} {rows : List ρ} {pages : Nat → List ρ} {n k : Nat}

/-- Pages that are enough for all rows have each row once, if the order leaves no ties. -/
theorem pages_perm
    (strict : ∀ a ∈ rows.filter q.holds, ∀ b ∈ rows.filter q.holds,
      q.before a b = true → q.before b a = true → a = b)
    (answered : ∀ i < k, (q.page n i).Answers rows (pages i))
    (enough : (rows.filter q.holds).length ≤ k * n) :
    ((List.range k).flatMap pages).Perm (rows.filter q.holds) := by
  rcases Nat.eq_zero_or_pos k with rfl | some
  · rw [Nat.zero_mul, Nat.le_zero, List.length_eq_zero_iff] at enough
    rw [enough]
    exact .nil
  · obtain ⟨sorted, arranged, ordered, -⟩ := answered 0 some
    -- There is only one way to order the rows, so all pages are cut from one list.
    have same : ∀ i ∈ List.range k, pages i = (sorted.drop (i * n)).take n := by
      intro i listed
      obtain ⟨sorted', arranged', ordered', cut⟩ := answered i (List.mem_range.mp listed)
      have equal : sorted' = sorted := by
        refine List.Perm.eq_of_pairwise ?_ ordered' ordered (arranged'.trans arranged.symm)
        intro a b left right
        exact strict a (arranged'.mem_iff.mp left) b (arranged.mem_iff.mp right)
      rw [cut, equal]
      rfl
    rw [List.flatMap_congr same, flatMap_pages,
      List.take_of_length_le (arranged.length_eq.trans_le enough)]
    exact arranged

section Ties

variable (trans : ∀ a b c, q.before a b = true → q.before b c = true → q.before a c = true)

include trans

/-- A row that is tied with a later one can change places with the next one. -/
theorem pairwise_swap {front rest : List ρ} {a b next : ρ}
    (ordered : (front ++ a :: next :: rest).Pairwise fun a b => q.before a b = true)
    (later : b ∈ next :: rest) (tied : q.before b a = true) :
    (front ++ next :: a :: rest).Pairwise fun a b => q.before a b = true := by
  simp only [List.pairwise_append, List.pairwise_cons, List.mem_cons, forall_eq_or_imp] at ordered ⊢
  obtain ⟨before, ⟨⟨first, others⟩, follow, last⟩, across⟩ := ordered
  -- The next row stands before the tied one, or is that row.
  have back : q.before next a = true := by
    rcases List.mem_cons.mp later with rfl | beyond
    · exact tied
    · exact trans next b a (follow b beyond) tied
  exact ⟨before, ⟨⟨back, follow⟩, others, last⟩, fun row listed =>
    ⟨(across row listed).2.1, (across row listed).1, (across row listed).2.2⟩⟩

/-- Two tied rows make room for two orderings that differ in two neighbours. -/
theorem exists_swap (total : ∀ a b, q.before a b = true ∨ q.before b a = true) {a b : ρ}
    (left : a ∈ rows.filter q.holds) (right : b ∈ rows.filter q.holds) (distinct : a ≠ b)
    (tied : q.before a b = true ∧ q.before b a = true) :
    ∃ front x y back, ∀ l ∈ [front ++ x :: y :: back, front ++ y :: x :: back],
      l.Perm (rows.filter q.holds) ∧ l.Pairwise fun a b => q.before a b = true := by
  have : Std.Total fun a b => q.before a b = true := ⟨total⟩
  have : IsTrans ρ fun a b => q.before a b = true := ⟨trans⟩
  have arranged := List.perm_insertionSort (fun a b => q.before a b = true) (rows.filter q.holds)
  have ordered := List.pairwise_insertionSort (fun a b => q.before a b = true)
    (rows.filter q.holds)
  generalize (rows.filter q.holds).insertionSort (fun a b => q.before a b = true) = sorted
    at arranged ordered
  -- One of the two rows comes first in the ordering, with the other one behind it.
  have apart : ∃ front u v rest, sorted = front ++ u :: rest ∧ v ∈ rest ∧ q.before v u = true := by
    obtain ⟨front, rest, rfl⟩ := List.append_of_mem (arranged.mem_iff.mpr left)
    rcases List.mem_append.mp (arranged.mem_iff.mpr right) with earlier | later
    · obtain ⟨front, between, rfl⟩ := List.append_of_mem earlier
      exact ⟨front, b, a, between ++ a :: rest, by simp, by simp, tied.1⟩
    · exact ⟨front, a, b, rest, rfl, List.mem_of_ne_of_mem distinct.symm later, tied.2⟩
  obtain ⟨front, u, v, _ | ⟨next, back⟩, rfl, behind, tied⟩ := apart
  · cases behind
  · refine ⟨front, u, next, back, fun l either => ?_⟩
    simp only [List.mem_cons, List.not_mem_nil, or_false] at either
    rcases either with rfl | rfl
    · exact ⟨arranged, ordered⟩
    · exact ⟨((List.Perm.swap u next back).append_left front).trans arranged,
        pairwise_swap trans ordered behind tied⟩

/-- With a tie, single rows may be answered such that one row comes twice. -/
theorem exists_pages_repeat (total : ∀ a b, q.before a b = true ∨ q.before b a = true) {a b : ρ}
    (left : a ∈ rows.filter q.holds) (right : b ∈ rows.filter q.holds) (distinct : a ≠ b)
    (tied : q.before a b = true ∧ q.before b a = true) :
    ∃ pages : Nat → List ρ, (∀ i, (q.page 1 i).Answers rows (pages i)) ∧
      ¬((List.range (rows.filter q.holds).length).flatMap pages).Nodup := by
  obtain ⟨front, x, y, back, both⟩ := exists_swap trans total left right distinct tied
  simp only [List.forall_mem_cons] at both
  obtain ⟨⟨arranged, ordered⟩, ⟨arranged', ordered'⟩, -⟩ := both
  -- The orderings change right after the first of the two neighbours.
  let cut (l : List ρ) (i : Nat) := (l.drop (i * 1)).take 1
  refine ⟨fun i => if i ≤ front.length then cut (front ++ x :: y :: back) i
    else cut (front ++ y :: x :: back) i, fun i => ?_, fun single => ?_⟩
  · dsimp only
    split
    · exact ⟨_, arranged, ordered, rfl⟩
    · exact ⟨_, arranged', ordered', rfl⟩
  · have size : (rows.filter q.holds).length = front.length + (back.length + 2) := by
      rw [← arranged.length_eq]
      simp
    have apart := List.pairwise_iff_getElem.mp (List.nodup_flatMap.mp single).2
      front.length (front.length + 1) (by simp [size]) (by simp [size]) (Nat.lt_succ_self _)
    simp only [Function.onFun, List.getElem_range, if_pos (Nat.le_refl front.length),
      if_neg (Nat.not_succ_le_self front.length)] at apart
    have next : (front ++ y :: x :: back).drop (front.length + 1) = x :: back := by
      rw [← List.drop_drop, List.drop_left, List.drop_one, List.tail_cons]
    exact apart (a := x) (by simp [cut]) (by simp [cut, next])

end Ties

end Query

end Relational
