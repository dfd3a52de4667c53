import Mathlib

/-! Orders that are drawn item by item, each item with a chance in proportion to its weight. -/

namespace Random

open scoped ENNReal

variable {α : Type} {weight : α → ℕ} {draw : List α → PMF ℕ} {items : List α} {p : α → Bool} {x : α}

/-- What follows a draw matters only where the draw can fall. -/
theorem bind_congr {β γ : Type} {law : PMF β} {f g : β → PMF γ}
    (same : ∀ b ∈ law.support, f b = g b) : law.bind f = law.bind g := by
  ext c
  simp only [PMF.bind_apply]
  refine tsum_congr fun b => ?_
  by_cases chance : law b = 0
  · simp [chance]
  · rw [same b chance]

/-- A value that no other outcome is mapped to is as likely as its outcome. -/
theorem map_apply_of_only {β γ : Type} {law : PMF β} {f : β → γ} {b : β}
    (only : ∀ b' ∈ law.support, f b' = f b → b' = b) : law.map f (f b) = law b := by
  rw [PMF.map_apply, tsum_eq_single b, if_pos rfl]
  intro b' other
  by_cases chance : law b' = 0
  · simp [chance]
  · exact if_neg fun same => other (only b' chance same.symm)

/-- The weight of several items together. -/
def total (weight : α → ℕ) (items : List α) : ℕ := (items.map weight).sum

/-- The order in which items are drawn, where each draw falls on a place among those left. -/
noncomputable def order (draw : List α → PMF ℕ) : ℕ → List α → PMF (List α)
  | 0, _ => .pure []
  | n + 1, items => (draw items).bind fun i =>
    items[i]?.elim (.pure []) fun x => (order draw n (items.eraseIdx i)).map (x :: ·)

/-- Draws that fall on each place with a chance in proportion to the weight of the item there. -/
def Proportional (weight : α → ℕ) (draw : List α → PMF ℕ) : Prop :=
  ∀ items, (∀ y ∈ items, 0 < weight y) → ∀ i x, items[i]? = some x →
    draw items i = weight x / total weight items

theorem total_pos (positive : ∀ y ∈ items, 0 < weight y) (listed : x ∈ items) :
    0 < total weight items :=
  (positive x listed).trans_le (List.le_sum_of_mem (List.mem_map_of_mem listed))

/-- What a predicate leaves out of the weight. -/
theorem total_filter (weight : α → ℕ) (p : α → Bool) (items : List α) :
    total weight (items.filter p) + total weight (items.filter fun y => !p y) =
      total weight items := by
  induction items with
  | nil => rfl
  | cons y rest ih => cases holds : p y <;> simp_all [total] <;> omega

/-- An item that does not count can be taken out. -/
theorem filter_eraseIdx {i : ℕ} {y : α} (found : items[i]? = some y) (out : p y = false) :
    (items.eraseIdx i).filter p = items.filter p := by
  induction items generalizing i with
  | nil => rfl
  | cons z rest ih =>
    cases i with
    | zero =>
      cases found
      simp [out]
    | succ i => simp [List.filter_cons, ih found]

/-- A sum over all places of a list. -/
theorem tsum_getElem? (items : List α) (f : ℕ → ℝ≥0∞) (g : α → ℝ≥0∞)
    (here : ∀ i y, items[i]? = some y → f i = g y) (beyond : ∀ i, items[i]? = none → f i = 0) :
    tsum f = (items.map g).sum := by
  rw [tsum_eq_sum (s := Finset.range items.length) fun i out =>
    beyond i (List.getElem?_eq_none (by simpa using out)), Finset.sum_range,
    ← Fin.sum_univ_fun_getElem]
  exact Finset.sum_congr rfl fun i _ => here i _ (List.getElem?_eq_getElem i.isLt)

/-- The first draw decides, unless it falls on an item that does not count. -/
theorem sum_first [DecidableEq α] (distinct : items.Nodup) (listed : x ∈ items)
    (counts : p x = true) (c d : ℝ≥0∞) :
    (items.map fun y => weight y * c * if p y then (if y = x then 1 else 0) else d).sum =
      weight x * c + total weight (items.filter fun y => !p y) * c * d := by
  have each : (fun y => (weight y : ℝ≥0∞) * c * if p y then (if y = x then 1 else 0) else d) =
      fun y => (if y = x then weight x * c else 0) +
        (if p y then 0 else (weight y : ℝ≥0∞)) * (c * d) := by
    funext y
    by_cases own : y = x
    · simp [own, counts]
    · cases holds : p y <;> simp [own, mul_assoc]
  have others : (items.map fun y => if p y then 0 else (weight y : ℝ≥0∞)).sum =
      total weight (items.filter fun y => !p y) := by
    clear distinct listed each
    induction items with
    | nil => simp [total]
    | cons y rest ih => cases holds : p y <;> simp_all [total]
  rw [each, List.sum_map_add, List.sum_map_mul_right, others, mul_assoc]
  congr 1
  rw [List.sum_map_eq_nsmul_single x _ fun y other _ => if_neg other,
    List.count_eq_one_of_mem distinct listed, one_nsmul, if_pos rfl]

/-- An item's chances by the first draw and by the later ones make up its share of what counts. -/
theorem share_eq [DecidableEq α] (positive : ∀ y ∈ items, 0 < weight y) (distinct : items.Nodup)
    (listed : x ∈ items) (counts : p x = true) {share : ℝ≥0∞}
    (own : share = weight x / total weight (items.filter p)) :
    (items.map fun y => weight y / total weight items *
      if p y then (if y = x then 1 else 0) else share).sum = share := by
  have whole := total_pos positive listed
  have part : 0 < total weight (items.filter p) :=
    total_pos (fun y member => positive y (List.mem_of_mem_filter member))
      (List.mem_filter.mpr ⟨listed, counts⟩)
  have both : (total weight (items.filter p) : ℝ≥0∞) +
      total weight (items.filter fun y => !p y) = total weight items := by
    exact_mod_cast total_filter weight p items
  simp only [div_eq_mul_inv] at own ⊢
  rw [sum_first distinct listed counts, own]
  have cancel : (total weight items : ℝ≥0∞) * (total weight items : ℝ≥0∞)⁻¹ = 1 :=
    ENNReal.mul_inv_cancel (by exact_mod_cast whole.ne') (ENNReal.natCast_ne_top _)
  have cancel' : (total weight (items.filter p) : ℝ≥0∞) *
      (total weight (items.filter p) : ℝ≥0∞)⁻¹ = 1 :=
    ENNReal.mul_inv_cancel (by exact_mod_cast part.ne') (ENNReal.natCast_ne_top _)
  generalize (total weight items : ℝ≥0∞)⁻¹ = c at cancel ⊢
  generalize (total weight (items.filter p) : ℝ≥0∞)⁻¹ = d at cancel' ⊢
  calc weight x * c + total weight (items.filter fun y => !p y) * c * (weight x * d)
      = weight x * c * (total weight (items.filter p) * d) +
          total weight (items.filter fun y => !p y) * c * (weight x * d) := by
        rw [cancel', mul_one]
    _ = weight x * d * ((total weight (items.filter p) +
          total weight (items.filter fun y => !p y)) * c) := by ring
    _ = weight x * d := by rw [both, cancel, mul_one]

/-- What the first draw leaves open is left to the later ones. -/
theorem find?_cons [DecidableEq α] (law : PMF (List α)) (x y : α) :
    (law.map (y :: ·)).map (List.find? p) (some x) =
      if p y then (if y = x then 1 else 0) else law.map (List.find? p) (some x) := by
  rw [PMF.map_comp]
  cases holds : p y with
  | false =>
    have skips : List.find? p ∘ (y :: ·) = List.find? p := by
      funext rest
      simp [holds]
    simp [skips]
  | true =>
    have stops : List.find? p ∘ (y :: ·) = Function.const _ (some y) := by
      funext rest
      simp [holds]
    rw [stops, PMF.map_const, PMF.pure_apply]
    simp [eq_comm]

/-- Drawing by weight, an item comes before all others that count by its share of their weight. -/
theorem find?_order [DecidableEq α] (fair : Proportional weight draw) {n : ℕ}
    (size : items.length = n) (positive : ∀ y ∈ items, 0 < weight y) (distinct : items.Nodup)
    (listed : x ∈ items) (counts : p x = true) :
    (order draw n items).map (List.find? p) (some x) =
      weight x / total weight (items.filter p) := by
  -- Whatever has been drawn without counting, the items that count are all left.
  induction n generalizing items with
  | zero => simp [List.eq_nil_of_length_eq_zero size] at listed
  | succ n ih =>
    rw [order, PMF.map_bind, PMF.bind_apply, tsum_getElem? items]
    · exact share_eq positive distinct listed counts rfl
    · intro i y found
      rw [fair items positive i y found, found, Option.elim_some, find?_cons]
      cases holds : p y with
      | true => rfl
      | false =>
        have shorter : (items.eraseIdx i).length = n := by
          rw [List.length_eraseIdx_of_lt (List.getElem?_eq_some_iff.mp found).1]
          omega
        have same := filter_eraseIdx found holds
        have left : x ∈ items.eraseIdx i :=
          List.mem_of_mem_filter (same ▸ List.mem_filter.mpr ⟨listed, counts⟩)
        have later := ih shorter (fun z member => positive z (List.mem_of_mem_eraseIdx member))
          (distinct.sublist (List.eraseIdx_sublist ..)) left
        rw [same] at later
        simp only [later]
    · intro i out
      rw [out, Option.elim_none, PMF.pure_map, PMF.pure_apply]
      simp

/-- Only items of the list are drawn. -/
theorem mem_of_order {n : ℕ} {drawn : List α} (possible : drawn ∈ (order draw n items).support)
    (member : x ∈ drawn) : x ∈ items := by
  induction n generalizing items drawn with
  | zero =>
    rw [order, PMF.mem_support_pure_iff] at possible
    simp [possible] at member
  | succ n ih =>
    rw [order, PMF.mem_support_bind_iff] at possible
    obtain ⟨i, -, possible⟩ := possible
    cases found : items[i]? with
    | none =>
      rw [found, Option.elim_none, PMF.mem_support_pure_iff] at possible
      simp [possible] at member
    | some y =>
      rw [found, Option.elim_some, PMF.mem_support_map_iff] at possible
      obtain ⟨rest, possible, rfl⟩ := possible
      rcases List.mem_cons.mp member with rfl | later
      · exact List.mem_of_getElem? found
      · exact List.mem_of_mem_eraseIdx (ih possible later)

end Random
