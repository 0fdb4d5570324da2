import Ssr.Apf.Biquad
import Mathlib.Tactic.FieldSimp
import Mathlib.Tactic.Ring
import Mathlib.Tactic.Positivity
import Mathlib.Tactic.LinearCombination

/-!
# `bilinear()` is the bilinear transform

Over the reals both branches of `roots2poly` return the coefficients of the characteristic
polynomial: minus the trace and the determinant (`roots2poly_eq`). With this all coefficients are
rational functions of the input (`bilinearAt_eq`), and the substitution is a calculation.
-/

set_option autoImplicit false

namespace Apf

/-! ## The transfer functions -/

namespace LaplaceCoefficients

variable (c : LaplaceCoefficients ℝ) (s : ℂ)

def numerator : ℂ := s ^ 2 + c.b1 * s + c.b2
def denominator : ℂ := s ^ 2 + c.a1 * s + c.a2

end LaplaceCoefficients

namespace SosCoefficients

variable (c : SosCoefficients ℝ) (z : ℂ)

def numerator : ℂ := c.b0 * z ^ 2 + c.b1 * z + c.b2
def denominator : ℂ := z ^ 2 + c.a1 * z + c.a2

end SosCoefficients

/-- The section `d` is `c` with `2 * lambda * (z - 1) / (z + 1)` in the place of `s`, divided by the
leading coefficient of the denominator. -/
inductive Substituted (c : LaplaceCoefficients ℝ) (lambda : ℝ) (d : SosCoefficients ℝ) : Prop
  | intro (leading : ℝ) (hleading : leading ≠ 0) (h : ∀ z : ℂ, z ≠ -1 →
    (z + 1) ^ 2 * c.numerator (2 * lambda * ((z - 1) / (z + 1))) = leading * d.numerator z ∧
    (z + 1) ^ 2 * c.denominator (2 * lambda * ((z - 1) / (z + 1))) = leading * d.denominator z)

/-! ## The polynomial of a matrix -/

theorem sq_sqrt {x : ℝ} (h : 0 ≤ x) : (CMath.sqrt x : ℝ) ^ 2 = x := Real.sq_sqrt h

/-- **Both branches** return minus the sum and the product of the eigenvalues. -/
theorem roots2poly_eq (M : Matrix (Fin 2) (Fin 2) ℝ) :
    roots2poly M = (-(M 0 0 + M 1 1), M 0 0 * M 1 1 - M 0 1 * M 1 0) := by
  simp only [roots2poly, Nat.cast_ofNat]
  split
  · rename_i hpos
    have hsq := sq_sqrt hpos.le
    simp only [StdComplex.neg, StdComplex.sub, StdComplex.mul]
    refine Prod.ext ?_ ?_
    · ring
    · linear_combination -hsq
  · rename_i hneg
    have hsq := sq_sqrt (neg_nonneg.2 (not_lt.1 hneg))
    simp only [StdComplex.neg, StdComplex.sub, StdComplex.mul]
    refine Prod.ext ?_ ?_
    · ring
    · linear_combination hsq

/-! ## The coefficients -/

variable {c : LaplaceCoefficients ℝ} {lambda : ℝ}

theorem bilinearDet_eq (c : LaplaceCoefficients ℝ) (lambda : ℝ) :
    bilinearDet c lambda = 1 + 1 / lambda / 2 * c.a1 + (1 / lambda / 2) ^ 2 * c.a2 := by
  simp [bilinearDet, stateSpace]
  ring

/-- The leading coefficient of the denominator after the substitution. -/
theorem leading_eq (hl : 0 < lambda) :
    4 * lambda ^ 2 * bilinearDet c lambda = 4 * lambda ^ 2 + 2 * lambda * c.a1 + c.a2 := by
  rw [bilinearDet_eq]
  field_simp
  ring

/-- **The coefficients** of the digital section. -/
theorem bilinearAt_eq (hl : 0 < lambda) (hdet : bilinearDet c lambda ≠ 0) :
    let leading := 4 * lambda ^ 2 + 2 * lambda * c.a1 + c.a2
    bilinearAt c lambda =
      { b0 := (4 * lambda ^ 2 + 2 * lambda * c.b1 + c.b2) / leading
        b1 := (2 * c.b2 - 8 * lambda ^ 2) / leading
        b2 := (4 * lambda ^ 2 - 2 * lambda * c.b1 + c.b2) / leading
        a1 := (2 * c.a2 - 8 * lambda ^ 2) / leading
        a2 := (4 * lambda ^ 2 - 2 * lambda * c.a1 + c.a2) / leading } := by
  intro leading
  have hr : (CMath.sqrt (1 / lambda) : ℝ) ^ 2 = 1 / lambda := sq_sqrt (by positivity)
  have hr0 : (CMath.sqrt (1 / lambda) : ℝ) ≠ 0 := (Real.sqrt_pos.2 (by positivity)).ne'
  have hleading : leading = 4 * lambda ^ 2 * bilinearDet c lambda := (leading_eq hl).symm
  have hD := bilinearDet_eq c lambda
  rw [hleading]
  simp only [bilinearAt, roots2poly_eq, stateSpace, Nat.cast_ofNat]
  generalize bilinearDet c lambda = D at hD hdet ⊢
  generalize (CMath.sqrt (1 / lambda) : ℝ) = r at hr hr0 ⊢
  obtain rfl : lambda = 1 / r ^ 2 := by rw [hr, one_div_one_div]
  simp only [one_div_one_div] at hD ⊢
  -- what is left has only `r` and `D` in its denominators
  refine SosCoefficients.mk.injEq .. ▸ ⟨?_, ?_, ?_, ?_, ?_⟩ <;> simp <;> field_simp
  · rw [hD]
    ring
  · rw [hD]
    ring
  · rw [hD]
    ring
  · ring
  · rw [hD]
    ring

/-! ## The substitution -/

theorem bilinearAt_substituted (hl : 0 < lambda) (hdet : bilinearDet c lambda ≠ 0) :
    Substituted c lambda (bilinearAt c lambda) := by
  have hleading : 4 * lambda ^ 2 + 2 * lambda * c.a1 + c.a2 ≠ 0 := by
    rw [← leading_eq hl]
    positivity
  refine ⟨_, hleading, fun z hz => ?_⟩
  have hz : z + 1 ≠ 0 := fun h => hz (eq_neg_of_add_eq_zero_left h)
  have hleading : (4 * lambda ^ 2 + 2 * lambda * c.a1 + c.a2 : ℂ) ≠ 0 := by exact_mod_cast hleading
  rw [bilinearAt_eq hl hdet]
  simp only [LaplaceCoefficients.numerator, LaplaceCoefficients.denominator,
    SosCoefficients.numerator, SosCoefficients.denominator]
  push_cast
  generalize hL : (4 * lambda ^ 2 + 2 * lambda * c.a1 + c.a2 : ℂ) = leading at hleading
  constructor
  · field_simp
    ring
  · field_simp
    rw [← hL]
    ring

/-- The values at three points determine a section. -/
theorem Substituted.unique {d d' : SosCoefficients ℝ} (h : Substituted c lambda d)
    (h' : Substituted c lambda d') : d = d' := by
  obtain ⟨l, hl, h⟩ := h
  obtain ⟨l', -, h'⟩ := h'
  have heq : ∀ x : ℝ, 0 ≤ x →
      l * (d.b0 * x ^ 2 + d.b1 * x + d.b2) = l' * (d'.b0 * x ^ 2 + d'.b1 * x + d'.b2) ∧
      l * (x ^ 2 + d.a1 * x + d.a2) = l' * (x ^ 2 + d'.a1 * x + d'.a2) := by
    intro x hx
    have hne : (x : ℂ) ≠ -1 := by
      intro hx1
      have : x = -1 := by exact_mod_cast hx1
      linarith
    have hn := (h x hne).1.symm.trans (h' x hne).1
    have hd := (h x hne).2.symm.trans (h' x hne).2
    simp only [SosCoefficients.numerator, SosCoefficients.denominator] at hn hd
    exact ⟨by exact_mod_cast hn, by exact_mod_cast hd⟩
  obtain ⟨hn0, hd0⟩ := heq 0 le_rfl
  obtain ⟨hn1, hd1⟩ := heq 1 zero_le_one
  obtain ⟨hn2, hd2⟩ := heq 2 zero_le_two
  -- the second differences of the denominators
  obtain rfl : l = l' := by linarith
  have hcancel : ∀ {x y : ℝ}, l * x = l * y → x = y := fun h => mul_left_cancel₀ hl h
  have hn0 := hcancel hn0
  have hn1 := hcancel hn1
  have hn2 := hcancel hn2
  have hd0 := hcancel hd0
  have hd1 := hcancel hd1
  refine SosCoefficients.mk.injEq .. ▸ ⟨?_, ?_, ?_, ?_, ?_⟩ <;> linarith

/-- **`bilinear()`** returns the only section that the substitution of `2 * lambda * (z - 1) / (z +
1)` can give. -/
theorem bilinear_iff (c : LaplaceCoefficients ℝ) {lambda : ℝ} (hl : 0 < lambda)
    (hdet : bilinearDet c lambda ≠ 0) :
    (∀ d, Substituted c lambda d ↔ d = bilinearAt c lambda) ∧
    ∀ fs fp, prewarp fs fp = lambda → ∀ d, Substituted c lambda d ↔ d = bilinear c fs fp := by
  have hat : ∀ d, Substituted c lambda d ↔ d = bilinearAt c lambda := by
    intro d
    have hsub := bilinearAt_substituted hl hdet
    constructor
    · exact fun h => h.unique hsub
    · rintro rfl
      exact hsub
  refine ⟨hat, fun fs fp hfs => ?_⟩
  rw [bilinear, hfs]
  exact hat

/-- A section with two real poles. -/
theorem bilinear_iff_one : Substituted ⟨1, 0, 1, 3, 2⟩ 1 (bilinearAt ⟨1, 0, 1, 3, 2⟩ 1) := by
  have hdet : bilinearDet ⟨1, 0, 1, 3, 2⟩ (1 : ℝ) ≠ 0 := by
    rw [bilinearDet_eq]
    norm_num
  exact ((bilinear_iff ⟨1, 0, 1, 3, 2⟩ one_pos hdet).1 _).2 rfl

end Apf
