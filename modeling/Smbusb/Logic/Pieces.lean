import Mathlib

/-!
# Ranges in pieces

A loop that moves `size` cells in pieces of `c` has moved `covered c size k` of them after `k`
turns, and moves `pieceLen c size k` in the next one, which is less than `c` at the end.  It takes
`pieceCount c size` turns.
-/

namespace Logic

variable {c size k : Nat}

/-- The number of cells in the first `k` pieces. -/
def covered (c size k : Nat) : Nat := min size (c * k)

/-- The length of the piece `k`. -/
def pieceLen (c size k : Nat) : Nat := min (size - covered c size k) c

/-- The number of pieces. -/
def pieceCount (c size : Nat) : Nat := (size + c - 1) / c

@[simp] theorem covered_zero (c size : Nat) : covered c size 0 = 0 := by
  rw [covered, Nat.mul_zero, Nat.min_zero]

/-- The pieces lie one behind the other. -/
theorem covered_succ (c size k : Nat) :
    covered c size (k + 1) = covered c size k + pieceLen c size k := by
  simp only [covered, pieceLen, Nat.mul_succ]
  omega

theorem covered_le (c size k : Nat) : covered c size k ≤ size := Nat.min_le_left ..

theorem pieceLen_le (c size k : Nat) : pieceLen c size k ≤ c := Nat.min_le_right ..

theorem piece_inside (c size k : Nat) : covered c size k + pieceLen c size k ≤ size := by
  rw [← covered_succ]
  exact covered_le ..

theorem lt_pieceCount (hc : 0 < c) : k < pieceCount c size ↔ c * k < size := by
  rw [pieceCount, Nat.lt_iff_add_one_le, Nat.le_div_iff_mul_le hc, Nat.mul_comm, Nat.mul_succ]
  omega

theorem covered_of_lt (hc : 0 < c) (h : k < pieceCount c size) : covered c size k = c * k :=
  Nat.min_eq_right (Nat.le_of_lt ((lt_pieceCount hc).mp h))

/-- No piece is empty. -/
theorem pieceLen_pos (hc : 0 < c) (h : k < pieceCount c size) : 0 < pieceLen c size k := by
  have hlt := (lt_pieceCount hc).mp h
  rw [pieceLen, covered_of_lt hc h]
  omega

/-- The pieces are the whole range. -/
theorem covered_pieceCount (hc : 0 < c) : covered c size (pieceCount c size) = size := by
  have hend : ¬ c * pieceCount c size < size := fun h =>
    Nat.lt_irrefl _ ((lt_pieceCount hc).mpr h)
  exact Nat.min_eq_left (Nat.not_lt.mp hend)

end Logic
