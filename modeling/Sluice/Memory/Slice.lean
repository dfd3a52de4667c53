import Mathlib.Data.List.Basic

/-! Slices of shared memory, and what copying, appending, and deleting in place do to them. -/

namespace Memory

variable {α : Type}

/-- Memory as blocks of values, which allocation adds to. -/
abbrev Heap (α : Type) := List (List α)

/-- A window on a block, with the room that is left behind its start. -/
structure Slice where
  block : Nat
  offset : Nat
  length : Nat
  capacity : Nat
  deriving DecidableEq

namespace Slice

/-- The values that a slice shows. -/
def read (h : Heap α) (s : Slice) : List α := ((h.getD s.block []).drop s.offset).take s.length

/-- The slice `s[:n]`. -/
def upTo (s : Slice) (n : Nat) : Slice := { s with length := n }

/-- The slice `s[n:]`. -/
def dropFront (s : Slice) (n : Nat) : Slice :=
  { s with offset := s.offset + n, length := s.length - n, capacity := s.capacity - n }

/-- A slice lies within its block. -/
structure Fits (h : Heap α) (s : Slice) : Prop where
  inside : s.block < h.length
  length : s.length ≤ s.capacity
  room : s.offset + s.capacity ≤ (h.getD s.block []).length

end Slice

namespace Heap

/-- Overwrites the values of a block from some place on. -/
def write (block place : Nat) (values : List α) (h : Heap α) : Heap α :=
  h.modify block fun b => b.take place ++ values ++ b.drop (place + values.length)

/-- The slice `make([]T, n)`, on a block of its own. -/
def make (zero : α) (n : Nat) (h : Heap α) : Slice × Heap α :=
  (⟨h.length, 0, n, n⟩, h ++ [List.replicate n zero])

/-- The statement `copy(dst, src)`, which reads all values before it writes them. -/
def copy (dst src : Slice) (h : Heap α) : Heap α :=
  h.write dst.block dst.offset ((src.read h).take dst.length)

/-- The expression `append(dst, values...)`, which moves to a new block only if there is no room. -/
def append (dst : Slice) (values : List α) (h : Heap α) : Slice × Heap α :=
  if dst.length + values.length ≤ dst.capacity then
    ({ dst with length := dst.length + values.length },
      h.write dst.block (dst.offset + dst.length) values)
  else
    (⟨h.length, 0, dst.length + values.length, dst.length + values.length⟩,
      h ++ [dst.read h ++ values])

/-- The expression `append(s[:i], s[i+1:]...)`. -/
def delete (s : Slice) (i : Nat) (h : Heap α) : Slice × Heap α :=
  h.append (s.upTo i) ((s.dropFront (i + 1)).read h)

end Heap

variable {h : Heap α} {s : Slice}

/-- A write leaves every other block as it is. -/
theorem Heap.getD_write_of_ne {block other : Nat} (apart : other ≠ block) (place : Nat)
    (values : List α) : (h.write block place values).getD other [] = h.getD other [] := by
  simp [write, List.getD_eq_getElem?_getD, apart.symm]

/-- A write replaces the values of its block from the place on. -/
theorem Heap.getD_write {block : Nat} (inside : block < h.length) (place : Nat)
    (values : List α) :
    (h.write block place values).getD block [] =
      (h.getD block []).take place ++
        (values ++ (h.getD block []).drop (place + values.length)) := by
  simp [write, List.getD_eq_getElem?_getD, inside]

/-- A new block leaves the old ones as they are. -/
theorem Heap.getD_alloc {block : Nat} (old : block < h.length) (b : List α) :
    List.getD (h ++ [b]) block [] = h.getD block [] := by
  simp [List.getD_eq_getElem?_getD, List.getElem?_append_left old]

/-- A slice shows as many values as it is long. -/
theorem Slice.Fits.length_read (fits : s.Fits h) : (s.read h).length = s.length := by
  have within := fits.length
  have room := fits.room
  rw [read, List.length_take, List.length_drop]
  omega

/-- The values behind the front of a slice. -/
theorem Slice.read_dropFront (s : Slice) (n : Nat) :
    (s.dropFront n).read h = (s.read h).drop n := by
  rw [read, read, dropFront, List.drop_take, List.drop_drop]

/-- A slice that was just made lies on the last block. -/
theorem Heap.make_fits (zero : α) (n : Nat) : (h.make zero n).1.Fits (h.make zero n).2 :=
  ⟨by simp [make], Nat.le_refl n, by simp [make]⟩

/--
Writing behind the first values of a slice, as far as its room goes.

The slice that ends with the new values shows them after the old ones.
-/
theorem Heap.write_spec (fits : s.Fits h) {k : Nat} (front : k ≤ s.length) {values : List α}
    (room : k + values.length ≤ s.capacity) :
    (s.upTo (k + values.length)).Fits (h.write s.block (s.offset + k) values) ∧
      (s.upTo (k + values.length)).read (h.write s.block (s.offset + k) values) =
        (s.read h).take k ++ values := by
  have within := fits.length
  have block := fits.room
  have written := getD_write fits.inside (s.offset + k) values
  have offset : s.offset ≤ ((h.getD s.block []).take (s.offset + k)).length := by
    rw [List.length_take]
    omega
  constructor
  · refine ⟨by simpa [write, Slice.upTo] using fits.inside, room, ?_⟩
    simp only [Slice.upTo, written, List.length_append, List.length_take, List.length_drop]
    omega
  · simp only [Slice.read, Slice.upTo, written]
    -- What stands before the slice is passed, and what stands behind it is not reached.
    rw [List.drop_append_of_le_length offset, List.drop_take, Nat.add_sub_cancel_left,
      List.take_take, Nat.min_eq_left front]
    have exactly : (((h.getD s.block []).drop s.offset).take k).length = k := by
      rw [List.length_take, List.length_drop]
      omega
    rw [List.take_append, exactly, List.take_of_length_le (by omega), Nat.add_sub_cancel_left,
      List.take_append_of_le_length (Nat.le_refl _), List.take_length]

/-- A copy between slices of the same length makes the one show what the other shows. -/
theorem Heap.copy_spec {dst src : Slice} (fits : dst.Fits h)
    (same : (src.read h).length = dst.length) :
    dst.Fits (h.copy dst src) ∧ dst.read (h.copy dst src) = src.read h := by
  have all : (src.read h).take dst.length = src.read h := List.take_of_length_le (Nat.le_of_eq same)
  have room : 0 + (src.read h).length ≤ dst.capacity := by
    rw [Nat.zero_add, same]
    exact fits.length
  have written := write_spec fits (Nat.zero_le _) room
  rw [copy, all]
  simpa [same, Slice.upTo] using written

/-- Deleting in place shifts the values behind the deleted one and writes to one block only. -/
theorem Heap.delete_spec (fits : s.Fits h) {i : Nat} (listed : i < s.length) :
    (h.delete s i).1 = s.upTo (s.length - 1) ∧ (h.delete s i).1.Fits (h.delete s i).2 ∧
      (h.delete s i).1.read (h.delete s i).2 = (s.read h).eraseIdx i ∧
      (h.delete s i).2.length = h.length ∧
      ∀ other, other ≠ s.block → (h.delete s i).2.getD other [] = h.getD other [] := by
  have shown := fits.length_read
  have within := fits.length
  have rest : ((s.dropFront (i + 1)).read h).length = s.length - (i + 1) := by
    rw [Slice.read_dropFront, List.length_drop, shown]
  -- The shorter slice has room for what follows the deleted value.
  have room : i + ((s.dropFront (i + 1)).read h).length ≤ s.capacity := by omega
  have done : h.delete s i = (s.upTo (i + ((s.dropFront (i + 1)).read h).length),
      h.write s.block (s.offset + i) ((s.dropFront (i + 1)).read h)) := if_pos room
  obtain ⟨fits', shown'⟩ := write_spec fits (Nat.le_of_lt listed) room
  rw [done]
  refine ⟨?_, fits', ?_, by simp [write], fun other apart => getD_write_of_ne apart _ _⟩
  · have shorter : i + ((s.dropFront (i + 1)).read h).length = s.length - 1 := by omega
    rw [shorter]
  · rw [shown', Slice.read_dropFront, List.eraseIdx_eq_take_drop_succ]

end Memory
