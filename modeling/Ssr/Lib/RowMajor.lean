import Mathlib.Data.List.Range
import Mathlib.Algebra.Order.Ring.Nat

/-!
# Rows in a flat list

A table of `m` rows and `n` columns that is stored row by row: the entry of the row `i` and the
column `j` is at the index `i * n + j`. Every index below `m * n` belongs to exactly one entry
(`existsUnique_index`), so a list of this length is given by its entries (`eq_grid`).
-/

set_option autoImplicit false

namespace Lib.RowMajor

variable {m n i j i' j' : ℕ}

theorem index_lt (hi : i < m) (hj : j < n) : i * n + j < m * n :=
  calc i * n + j < i * n + n := Nat.add_lt_add_left hj _
    _ = (i + 1) * n := (Nat.succ_mul i n).symm
    _ ≤ m * n := Nat.mul_le_mul_right n hi

theorem index_div (hj : j < n) : (i * n + j) / n = i := by
  rw [Nat.add_comm, Nat.add_mul_div_right _ _ (by omega), Nat.div_eq_of_lt hj, Nat.zero_add]

theorem index_mod (hj : j < n) : (i * n + j) % n = j := by
  rw [Nat.add_comm, Nat.add_mul_mod_self_right, Nat.mod_eq_of_lt hj]

theorem index_inj (hj : j < n) (hj' : j' < n) (h : i * n + j = i' * n + j') : i = i' ∧ j = j' := by
  constructor
  · rw [← index_div (i := i) hj, h, index_div hj']
  · rw [← index_mod (i := i) hj, h, index_mod hj']

/-- Every index belongs to exactly one row and column. -/
theorem existsUnique_index {k : ℕ} (h : k < m * n) :
    ∃! p : ℕ × ℕ, (p.1 < m ∧ p.2 < n) ∧ p.1 * n + p.2 = k := by
  have hn : 0 < n := Nat.pos_of_mul_pos_left (Nat.zero_lt_of_lt h)
  refine ⟨(k / n, k % n), ⟨⟨Nat.div_lt_of_lt_mul (by rwa [Nat.mul_comm] at h), Nat.mod_lt k hn⟩,
    Nat.div_add_mod' k n⟩, ?_⟩
  rintro ⟨i, j⟩ ⟨⟨-, hj⟩, hk⟩
  obtain ⟨rfl, rfl⟩ := index_inj hj (Nat.mod_lt k hn) (hk.trans (Nat.div_add_mod' k n).symm)
  rfl

/-! ## The list of the entries -/

variable {α : Type*}

/-- The rows of a table. -/
def rows (m n : ℕ) (f : ℕ → ℕ → α) : List (List α) :=
  (List.range m).map fun i => (List.range n).map (f i)

/-- The entries of a table, row by row. -/
def grid (m n : ℕ) (f : ℕ → ℕ → α) : List α := (rows m n f).flatten

theorem grid_succ (m n : ℕ) (f : ℕ → ℕ → α) :
    grid (m + 1) n f = grid m n f ++ (List.range n).map (f m) := by
  simp [grid, rows, List.range_succ]

theorem length_grid (m n : ℕ) (f : ℕ → ℕ → α) : (grid m n f).length = m * n := by
  induction m with
  | zero => simp [grid, rows]
  | succ m ih => rw [grid_succ, List.length_append, ih, List.length_map, List.length_range,
      Nat.succ_mul]

theorem grid_getElem? (f : ℕ → ℕ → α) (hi : i < m) (hj : j < n) :
    (grid m n f)[i * n + j]? = some (f i j) := by
  induction m with
  | zero => omega
  | succ m ih =>
    rw [grid_succ]
    rcases Nat.lt_succ_iff_lt_or_eq.1 hi with hlt | rfl
    · rw [List.getElem?_append_left (by rw [length_grid]; exact index_lt hlt hj), ih hlt]
    · rw [List.getElem?_append_right (by rw [length_grid]; omega), length_grid,
        Nat.add_sub_cancel_left, List.getElem?_map, List.getElem?_range hj]
      rfl

/-- A list of the right length is the list of its entries. -/
theorem eq_grid {l : List α} {f : ℕ → ℕ → α} (hlength : l.length = m * n)
    (h : ∀ i < m, ∀ j < n, l[i * n + j]? = some (f i j)) : l = grid m n f := by
  refine List.ext_getElem? fun k => ?_
  by_cases hk : k < m * n
  · obtain ⟨⟨i, j⟩, ⟨⟨hi, hj⟩, rfl⟩, -⟩ := existsUnique_index hk
    rw [h i hi j hj, grid_getElem? f hi hj]
  · rw [List.getElem?_eq_none (by omega), List.getElem?_eq_none (by rw [length_grid]; omega)]

end Lib.RowMajor
