import Mathlib.Algebra.CharZero.Defs
import Mathlib.Algebra.Field.Basic
import Mathlib.Data.Nat.Cast.Basic
import Mathlib.Tactic.FieldSimp
import Mathlib.Tactic.LinearCombination
import Mathlib.Tactic.Ring

/-!
# Parameters that change from block to block

A parameter has one value for each block of `b` samples, and within a block it goes along a line from
the previous value to the new one. `rampSignal` is the parameter as a signal; from one sample to the
next it changes by a `b`-th of the difference of two values, also where a block ends
(`rampSignal_succ`).
-/

set_option autoImplicit false

namespace Lib

/-- What weights and samples are made of. -/
abbrev Scalar (T : Type*) := Field T

variable {T : Type*} [Scalar T]

/-- The line from `first` at 0 to `last` at `b`. -/
def ramp (b : ℕ) (first last : T) (i : ℕ) : T := first + i * ((last - first) / b)

/-- The values `w 0`, `w 1`, ... at the beginning of the blocks, joined by lines. -/
def rampSignal (b : ℕ) (w : ℕ → T) (n : ℕ) : T := ramp b (w (n / b)) (w (n / b + 1)) (n % b)

variable {b : ℕ}

@[simp] theorem ramp_zero (first last : T) : ramp b first last 0 = first := by
  simp [ramp]

@[simp] theorem ramp_self (value : T) (i : ℕ) : ramp b value value i = value := by
  simp [ramp]

theorem ramp_succ (first last : T) (i : ℕ) :
    ramp b first last (i + 1) = ramp b first last i + (last - first) / b := by
  unfold ramp
  push_cast
  ring

theorem ramp_end [CharZero T] (hb : 0 < b) (first last : T) : ramp b first last b = last := by
  have hne : (b : T) ≠ 0 := Nat.cast_ne_zero.2 hb.ne'
  unfold ramp
  field_simp
  ring

theorem rampSignal_block {i : ℕ} (hi : i < b) (w : ℕ → T) (t : ℕ) :
    rampSignal b w (t * b + i) = ramp b (w t) (w (t + 1)) i := by
  have hdiv : (t * b + i) / b = t := by
    rw [Nat.add_comm, Nat.add_mul_div_right i t (by omega), Nat.div_eq_of_lt hi, Nat.zero_add]
  have hmod : (t * b + i) % b = i := by
    rw [Nat.add_comm, Nat.add_mul_mod_self_right, Nat.mod_eq_of_lt hi]
  rw [rampSignal, hdiv, hmod]

/-- **No jumps.** -/
theorem rampSignal_succ [CharZero T] (b : ℕ) (w : ℕ → T) (n : ℕ) :
    rampSignal b w (n + 1) - rampSignal b w n = (w (n / b + 1) - w (n / b)) / b := by
  rcases Nat.eq_zero_or_pos b with rfl | hb
  · simp [rampSignal, ramp]
  obtain ⟨t, i, hi, rfl⟩ : ∃ t i, i < b ∧ n = t * b + i :=
    ⟨n / b, n % b, Nat.mod_lt n hb, (Nat.div_add_mod' n b).symm⟩
  have hdiv : (t * b + i) / b = t := by
    rw [Nat.add_comm, Nat.add_mul_div_right i t hb, Nat.div_eq_of_lt hi, Nat.zero_add]
  rw [rampSignal_block hi, hdiv]
  by_cases hlast : i + 1 < b
  · rw [Nat.add_assoc, rampSignal_block hlast, ramp_succ]
    ring
  · have hnext : t * b + i + 1 = (t + 1) * b + 0 := by
      rw [Nat.succ_mul]
      omega
    have hend := ramp_end hb (w t) (w (t + 1))
    obtain rfl : b = i + 1 := by omega
    rw [ramp_succ] at hend
    rw [hnext, rampSignal_block hb, ramp_zero]
    linear_combination -hend

end Lib
