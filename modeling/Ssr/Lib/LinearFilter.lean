import Mathlib.RingTheory.PowerSeries.Inverse
import Mathlib.Tactic.Ring

/-!
# Recursive filters as power series

A signal `x` that starts at the time 0 stands for the power series `∑ x n * X ^ n`, a delay by one
sample for the factor `X`. A second order section in Direct Form II has the inner signal `w n = u n -
a1 * w (n - 1) - a2 * w (n - 2)` and the output `b0 * w n + b1 * w (n - 1) + b2 * w (n - 2)`;
`directForm` multiplies the input with a fraction of polynomials.
-/

set_option autoImplicit false

namespace Lib

open PowerSeries

variable {T : Type*}

/-- The signal `w`, `k` samples ago. -/
def past [Zero T] (w : ℕ → T) (k n : ℕ) : T := if k ≤ n then w (n - k) else 0

section
variable [Zero T] (w : ℕ → T)

@[simp] theorem past_zero (n : ℕ) : past w 0 n = w n := rfl

@[simp] theorem past_start (k : ℕ) : past w (k + 1) 0 = 0 := rfl

@[simp] theorem past_succ (k n : ℕ) : past w (k + 1) (n + 1) = past w k n := by
  simp [past]

end

/-- A delay. -/
theorem mk_past [Semiring T] (w : ℕ → T) (k : ℕ) :
    PowerSeries.mk (past w k) = PowerSeries.mk w * X ^ k := by
  ext n
  rw [coeff_mk, coeff_mul_X_pow', past]
  simp only [coeff_mk]

/-- `c0 + c1 * X + c2 * X ^ 2` -/
noncomputable def polynomial2 [Semiring T] (c0 c1 c2 : T) : PowerSeries T :=
  C c0 + C c1 * X + C c2 * X ^ 2

/-- A sum of delayed signals. -/
theorem mk_polynomial2 [CommSemiring T] (c0 c1 c2 : T) (w : ℕ → T) :
    (PowerSeries.mk fun n => c0 * w n + c1 * past w 1 n + c2 * past w 2 n) =
      polynomial2 c0 c1 c2 * PowerSeries.mk w := by
  have hdelay : ∀ (c : T) (k : ℕ), (PowerSeries.mk fun n => c * past w k n) =
      C c * X ^ k * PowerSeries.mk w := by
    intro c k
    rw [mul_assoc, mul_comm (X ^ k), ← mk_past]
    ext n
    simp
  have hsum : (PowerSeries.mk fun n => c0 * w n + c1 * past w 1 n + c2 * past w 2 n) =
      (PowerSeries.mk fun n => c0 * past w 0 n) + (PowerSeries.mk fun n => c1 * past w 1 n) +
        PowerSeries.mk fun n => c2 * past w 2 n := by
    ext n
    simp
  rw [hsum, hdelay, hdelay, hdelay, polynomial2]
  ring

/-- **Direct Form II**: if `w` is the recursive part and `y` the other one then `y` is the input `u`,
multiplied with the transfer function. -/
theorem directForm [Field T] {a1 a2 b0 b1 b2 : T} {u w y : ℕ → T}
    (hw : ∀ n, w n = u n - a1 * past w 1 n - a2 * past w 2 n)
    (hy : ∀ n, y n = b0 * w n + b1 * past w 1 n + b2 * past w 2 n) :
    PowerSeries.mk y =
      polynomial2 b0 b1 b2 * (polynomial2 1 a1 a2)⁻¹ * PowerSeries.mk u := by
  have hne : constantCoeff (polynomial2 1 a1 a2) ≠ 0 := by
    simp [polynomial2]
  have hinput : u = fun n => 1 * w n + a1 * past w 1 n + a2 * past w 2 n := by
    funext n
    rw [one_mul]
    nth_rewrite 1 [hw n]
    ring
  have hrecursive : polynomial2 1 a1 a2 * PowerSeries.mk w = PowerSeries.mk u := by
    rw [← mk_polynomial2, ← hinput]
  have houtput : PowerSeries.mk y = polynomial2 b0 b1 b2 * PowerSeries.mk w := by
    rw [← mk_polynomial2, ← funext hy]
  rw [houtput, ← hrecursive, mul_assoc, ← mul_assoc (polynomial2 1 a1 a2)⁻¹,
    PowerSeries.inv_mul_cancel _ hne, one_mul]

end Lib
