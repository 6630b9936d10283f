import Mathlib.Data.Nat.Basic

/-!
# Row-major indices

The index `row * width + col` of a place in a buffer of rows: rows do not overlap, and a place in its
row is known from its index.
-/

namespace EdgeVision.Lib

variable {width height row row' col col' n : Nat}

/-- A row ends before the next one starts. -/
theorem row_end_le (hn : n ≤ width) (hrow : row < row') : row * width + n ≤ row' * width := by
  calc row * width + n ≤ row * width + width := by omega
    _ = (row + 1) * width := by rw [Nat.succ_mul]
    _ ≤ row' * width := Nat.mul_le_mul_right width hrow

theorem index_lt (hcol : col < width) (hrow : row < height) :
    row * width + col < height * width := by
  have hend := row_end_le (Nat.le_refl width) hrow
  omega

theorem index_div (row : Nat) (hcol : col < width) : (row * width + col) / width = row := by
  rw [Nat.mul_comm, Nat.mul_add_div (by omega), Nat.div_eq_of_lt hcol, Nat.add_zero]

theorem index_mod (row : Nat) (hcol : col < width) : (row * width + col) % width = col := by
  rw [Nat.mul_comm, Nat.mul_add_mod, Nat.mod_eq_of_lt hcol]

/-- Two places in their rows have different indices. -/
theorem index_unique (hcol : col < width) (hcol' : col' < width)
    (h : row * width + col = row' * width + col') : col = col' ∧ row = row' := by
  constructor
  · rw [← index_mod row hcol, h, index_mod row' hcol']
  · rw [← index_div row hcol, h, index_div row' hcol']

end EdgeVision.Lib
