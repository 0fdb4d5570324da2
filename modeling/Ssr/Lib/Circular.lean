import Mathlib.Algebra.Order.Ring.Int
import Mathlib.Tactic.Common

/-!
# Circular storage

A ring of `size` slots keeps the last values of a stream: the value of the time `j` is in the slot
`j` modulo `size`. Times that are less than `size` apart have different slots.
-/

set_option autoImplicit false

namespace Lib.Circular

variable {size : ℕ}

/-- The slot of the time `j`. -/
def slot (size : ℕ) (j : ℤ) : ℕ := (j % size).toNat

theorem slot_cast (h : 0 < size) (j : ℤ) : (slot size j : ℤ) = j % size :=
  Int.toNat_of_nonneg (Int.emod_nonneg j (by omega))

theorem slot_lt (h : 0 < size) (j : ℤ) : slot size j < size := by
  have hlt := Int.emod_lt_of_pos j (show (0 : ℤ) < size by omega)
  rw [← slot_cast h j] at hlt
  omega

theorem slot_of_lt {n : ℕ} (h : n < size) : slot size n = n := by
  rw [slot, Int.emod_eq_of_lt (by omega) (by omega), Int.toNat_natCast]

/-- Only the slot of a time matters for later times. -/
theorem slot_add (h : 0 < size) (j k : ℤ) : slot size (slot size j + k) = slot size (j + k) := by
  rw [slot, slot_cast h, Int.emod_add_emod]
  rfl

theorem slot_add_of_lt {n : ℕ} (h : n < size) (j : ℤ) :
    slot size (j + n) =
      if slot size j + n < size then slot size j + n else slot size j + n - size := by
  have hsize : 0 < size := by omega
  have hj := slot_lt hsize j
  rw [← slot_add hsize j n]
  split
  · rename_i hlt
    rw [← Int.natCast_add, slot_of_lt hlt]
  · rw [slot, ← Int.sub_emod_right, ← slot, show (slot size j : ℤ) + n - size =
      ((slot size j + n - size : ℕ) : ℤ) by omega, slot_of_lt (by omega)]

theorem slot_add_size (j : ℤ) : slot size (j + size) = slot size j := by
  rw [slot, Int.add_emod_right]
  rfl

/-- Times less than `size` apart have different slots. -/
theorem eq_of_slot_eq (h : 0 < size) {j k : ℤ} (heq : slot size j = slot size k)
    (hjk : j - k < size) (hkj : k - j < size) : j = k := by
  have hmod : j % size = k % size := by rw [← slot_cast h, ← slot_cast h, heq]
  have hdvd : (size : ℤ) ∣ j - k :=
    Int.dvd_of_emod_eq_zero (Int.emod_eq_emod_iff_emod_sub_eq_zero.1 hmod)
  exact Int.sub_eq_zero.1 (Int.eq_zero_of_dvd_of_natAbs_lt_natAbs hdvd (by omega))

end Lib.Circular
