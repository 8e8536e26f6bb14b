import Mathlib

/-!
# Slices of a list

The slices of length `n` of a list, as many as it takes to cover it. They put it together again
(`flatten_slices`), all but the last are full, and none is empty.
-/

namespace SreAgent.Base.Slices

variable {α : Type*} {n i : Nat} {xs : List α}

/-- `xs[i * n : (i + 1) * n]`. -/
def slice (n : Nat) (xs : List α) (i : Nat) : List α := (xs.drop (i * n)).take n

/-- How many slices it takes, the length divided by `n` and rounded up. -/
def slices (n length : Nat) : Nat := (length + n - 1) / n

/-- There is a slice exactly where an element is left. -/
theorem lt_slices (positive : 0 < n) : i < slices n xs.length ↔ i * n < xs.length := by
  unfold slices
  rw [Nat.lt_iff_add_one_le, Nat.le_div_iff_mul_le positive, Nat.succ_mul]
  omega

/-- The slices cover the list. -/
theorem le_slices_mul (positive : 0 < n) : xs.length ≤ slices n xs.length * n := by
  by_contra short
  have more := (lt_slices positive).2 (Nat.lt_of_not_le short)
  omega

/-- A list that fits into `most` slices has no more. -/
theorem slices_le {most : Nat} (positive : 0 < n) (fits : xs.length ≤ n * most) :
    slices n xs.length ≤ most := by
  by_contra more
  have inside := (lt_slices positive).1 (Nat.lt_of_not_le more)
  rw [Nat.mul_comm] at inside
  omega

theorem slices_pos (positive : 0 < n) (filled : xs ≠ []) : 0 < slices n xs.length := by
  rw [lt_slices positive, Nat.zero_mul]
  exact List.length_pos_iff.2 filled

/-- No slice is longer than `n`. -/
theorem length_slice_le : (slice n xs i).length ≤ n := List.length_take_le n _

/-- A slice with another one after it is full. -/
theorem length_slice (positive : 0 < n) (more : i + 1 < slices n xs.length) : (slice n xs i).length = n := by
  have inside := (lt_slices positive).1 more
  rw [Nat.succ_mul] at inside
  rw [slice, List.length_take, List.length_drop]
  omega

/-- No slice is empty. -/
theorem slice_ne_nil (positive : 0 < n) (counted : i < slices n xs.length) : slice n xs i ≠ [] := by
  have inside := (lt_slices positive).1 counted
  rw [← List.length_pos_iff, slice, List.length_take, List.length_drop]
  omega

/-- The first slices are a prefix of the list. -/
theorem flatMap_slice (k : Nat) : (List.range k).flatMap (slice n xs) = xs.take (k * n) := by
  induction k with
  | zero => simp
  | succ k ih =>
    rw [List.range_succ, List.flatMap_append, ih, List.flatMap_singleton, slice, Nat.succ_mul, List.take_add]

/-- The slices put the list together again. -/
theorem flatten_slices (positive : 0 < n) : (List.range (slices n xs.length)).flatMap (slice n xs) = xs := by
  rw [flatMap_slice]
  exact List.take_of_length_le (le_slices_mul positive)

end SreAgent.Base.Slices
