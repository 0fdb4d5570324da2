import Mathlib.RingTheory.RootsOfUnity.Complex
import Mathlib.Algebra.Field.GeomSum
import Mathlib.Tactic.Ring
import Mathlib.Tactic.Linarith

/-!
# The half-complex Fourier transform

The discrete Fourier transform of `2 * b` real numbers is stored in `2 * b` real numbers: the real
part of the coefficient `k ≤ b` at `k`, the imaginary part of the coefficient `0 < k < b` at `2 * b
- k`. `r2hc` is the transform, `hc2r` its unnormalised inverse, `mul` the product of spectra. The
main result is the convolution theorem, `hc2r_mul`.
-/

set_option autoImplicit false

namespace Lib.HalfComplex

open Finset Real

/-- `m` steps around a circle that has `2 * b` steps. -/
noncomputable def angle (b : ℕ) (m : ℤ) : ℝ := π * m / b

/-- The transform. -/
noncomputable def r2hc (b : ℕ) (x : ℕ → ℝ) (k : ℕ) : ℝ :=
  if k ≤ b then ∑ j ∈ range (2 * b), x j * cos (angle b (k * j))
  else -∑ j ∈ range (2 * b), x j * sin (angle b ((2 * b - k : ℕ) * j))

/-- The inverse transform, without the factor `1 / (2 * b)`. -/
noncomputable def hc2r (b : ℕ) (X : ℕ → ℝ) (j : ℕ) : ℝ :=
  X 0 + (-1) ^ j * X b + 2 * ∑ k ∈ range (b - 1),
    (X (k + 1) * cos (angle b ((k + 1 : ℕ) * j)) -
      X (2 * b - (k + 1)) * sin (angle b ((k + 1 : ℕ) * j)))

/-- The product of two spectra. -/
def mul {α : Type} [Mul α] [Sub α] [Add α] (b : ℕ) (X Y : ℕ → α) (k : ℕ) : α :=
  if k = 0 ∨ k = b then X k * Y k
  else if k < b then X k * Y k - X (2 * b - k) * Y (2 * b - k)
  else X (2 * b - k) * Y k + X k * Y (2 * b - k)

section Bins
variable {α : Type} (b : ℕ)

/-- The real part of the coefficient `k ≤ b`. -/
def re (X : ℕ → α) (k : ℕ) : α := X k

/-- The imaginary part of the coefficient `k ≤ b`: the first and the last one are real. -/
def im [Zero α] (X : ℕ → α) (k : ℕ) : α := if k = 0 ∨ k = b then 0 else X (2 * b - k)

variable [Ring α] {b} {k : ℕ} (X Y : ℕ → α)

theorem mul_ends (h : k = 0 ∨ k = b) : mul b X Y k = X k * Y k := if_pos h

theorem re_mul (hk : k ≤ b) :
    re (mul b X Y) k = re X k * re Y k - im b X k * im b Y k := by
  unfold re im
  by_cases h : k = 0 ∨ k = b
  · rw [mul_ends X Y h, if_pos h, if_pos h, mul_zero, sub_zero]
  · rw [mul, if_neg h, if_neg h, if_neg h, if_pos (by omega)]

theorem im_mul (hk : k ≤ b) :
    im b (mul b X Y) k = re X k * im b Y k + im b X k * re Y k := by
  unfold re im
  by_cases h : k = 0 ∨ k = b
  · rw [if_pos h, if_pos h, if_pos h, mul_zero, zero_mul, add_zero]
  · rw [if_neg h, if_neg h, if_neg h, mul, if_neg (by omega), if_neg (by omega),
      show 2 * b - (2 * b - k) = k by omega]

end Bins

/-! ## Angles -/

theorem angle_add (b : ℕ) (m n : ℤ) : angle b (m + n) = angle b m + angle b n := by
  unfold angle
  push_cast
  ring

theorem angle_sub (b : ℕ) (m n : ℤ) : angle b (m - n) = angle b m - angle b n := by
  unfold angle
  push_cast
  ring

theorem angle_half {b : ℕ} (hb : 0 < b) (m : ℤ) : angle b (b * m) = m * π := by
  have hne : (b : ℝ) ≠ 0 := Nat.cast_ne_zero.2 hb.ne'
  unfold angle
  push_cast
  field_simp

/-- The coefficients `k` and `2 * b - k` have the same cosines. -/
theorem cos_angle_reflect {b : ℕ} (hb : 0 < b) {k : ℕ} (hk : k ≤ 2 * b) (t : ℤ) :
    cos (angle b ((2 * b - k : ℕ) * t)) = cos (angle b (k * t)) := by
  have hangle : angle b ((2 * b - k : ℕ) * t) = t * (2 * π) - angle b (k * t) := by
    rw [Nat.cast_sub hk]
    have hsplit : ((2 * b : ℕ) - (k : ℤ)) * t = b * (2 * t) - k * t := by
      push_cast
      ring
    rw [hsplit, angle_sub, angle_half hb]
    push_cast
    ring
  rw [hangle, cos_int_mul_two_pi_sub]

/-- **The cosines around the circle** add up to zero, unless all of them are 1. -/
theorem sum_cos {b : ℕ} (hb : 0 < b) (t : ℤ) :
    ∑ k ∈ range (2 * b), cos (angle b (k * t)) = if (2 * b : ℤ) ∣ t then 2 * (b : ℝ) else 0 := by
  have hroot := Complex.isPrimitiveRoot_exp (2 * b) (by omega)
  set ζ := Complex.exp (2 * π * Complex.I / (2 * b : ℕ)) with hζ
  have hcos : ∀ k : ℕ, cos (angle b (k * t)) = ((ζ ^ t) ^ k).re := by
    intro k
    have hexp : (ζ ^ t) ^ k = Complex.exp ((angle b (k * t) : ℝ) * Complex.I) := by
      rw [hζ, ← Complex.exp_int_mul, ← Complex.exp_nat_mul]
      congr 1
      unfold angle
      push_cast
      have hne : (b : ℂ) ≠ 0 := Nat.cast_ne_zero.2 hb.ne'
      field_simp
    rw [hexp, Complex.exp_ofReal_mul_I_re]
  rw [sum_congr rfl fun k _ => hcos k, ← Complex.re_sum]
  by_cases hdvd : (2 * b : ℤ) ∣ t
  · have hone : ζ ^ t = 1 := (hroot.zpow_eq_one_iff_dvd t).2 (by exact_mod_cast hdvd)
    simp [hone, hdvd]
  · have hone : ζ ^ t ≠ 1 := fun h => hdvd (by exact_mod_cast (hroot.zpow_eq_one_iff_dvd t).1 h)
    have hpow : (ζ ^ t) ^ (2 * b) = 1 := by
      rw [← zpow_natCast, zpow_comm, zpow_natCast, hroot.pow_eq_one, one_zpow]
    rw [geom_sum_eq hone, hpow, if_neg hdvd]
    simp

/-! ## The convolution theorem -/

/-- The contribution of the coefficient `k` of a product to the sample `j`. -/
theorem coefficient_mul (b k j : ℕ) (x y : ℕ → ℝ) :
    ((∑ l ∈ range (2 * b), x l * cos (angle b (k * l))) *
          (∑ m ∈ range (2 * b), y m * cos (angle b (k * m))) -
        (∑ l ∈ range (2 * b), x l * sin (angle b (k * l))) *
          (∑ m ∈ range (2 * b), y m * sin (angle b (k * m)))) * cos (angle b (k * j)) +
      ((∑ l ∈ range (2 * b), x l * sin (angle b (k * l))) *
          (∑ m ∈ range (2 * b), y m * cos (angle b (k * m))) +
        (∑ l ∈ range (2 * b), x l * cos (angle b (k * l))) *
          (∑ m ∈ range (2 * b), y m * sin (angle b (k * m)))) * sin (angle b (k * j)) =
      ∑ l ∈ range (2 * b), ∑ m ∈ range (2 * b),
        x l * y m * cos (angle b (k * (l + m - j : ℤ))) := by
  simp only [sum_mul_sum]
  simp only [← sum_sub_distrib, ← sum_add_distrib, sum_mul]
  refine sum_congr rfl fun l _ => sum_congr rfl fun m _ => ?_
  have hangle : angle b (k * (l + m - j : ℤ)) =
      angle b (k * l) + angle b (k * m) - angle b (k * j) := by
    rw [← angle_add, ← angle_sub]
    congr 1
    ring
  rw [hangle, cos_sub, cos_add, sin_add]
  ring

/-- A sum over the circle of a function that is the same at `k` and at `2 * b - k`. -/
theorem sum_circle {b : ℕ} (hb : 0 < b) {c : ℕ → ℝ} (hc : ∀ k ≤ 2 * b, c (2 * b - k) = c k) :
    ∑ k ∈ range (2 * b), c k = c 0 + c b + 2 * ∑ k ∈ range (b - 1), c (k + 1) := by
  have hsplit : 2 * b = 1 + (b - 1) + (1 + (b - 1)) := by omega
  have hlow : 1 + (b - 1) = b := by omega
  have hhigh : ∑ k ∈ range (b - 1), c (b + (1 + k)) = ∑ k ∈ range (b - 1), c (k + 1) := by
    rw [← sum_range_reflect (fun k => c (k + 1))]
    refine sum_congr rfl fun k hk => ?_
    have hk := mem_range.1 hk
    rw [← hc (b + (1 + k)) (by omega)]
    congr 1
    omega
  have hfirst : ∑ k ∈ range (b - 1), c (1 + k) = ∑ k ∈ range (b - 1), c (k + 1) :=
    sum_congr rfl fun k _ => congrArg c (Nat.add_comm 1 k)
  rw [hsplit, sum_range_add, sum_range_add, sum_range_add, hlow, hhigh, hfirst]
  simp only [sum_range_one, Nat.add_zero]
  ring

theorem r2hc_low {b k : ℕ} (hk : k ≤ b) (x : ℕ → ℝ) :
    r2hc b x k = ∑ l ∈ range (2 * b), x l * cos (angle b (k * l)) := if_pos hk

theorem r2hc_high {b k : ℕ} (hk : k < b) (x : ℕ → ℝ) :
    r2hc b x (2 * b - k) = -∑ l ∈ range (2 * b), x l * sin (angle b (k * l)) := by
  rw [r2hc, if_neg (by omega), show 2 * b - (2 * b - k) = k by omega]

theorem hc2r_mul_eq {b : ℕ} (hb : 0 < b) (x y : ℕ → ℝ) (j : ℕ) :
    hc2r b (mul b (r2hc b x) (r2hc b y)) j = ∑ k ∈ range (2 * b),
      ∑ l ∈ range (2 * b), ∑ m ∈ range (2 * b),
        x l * y m * cos (angle b (k * (l + m - j : ℤ))) := by
  have hzero : mul b (r2hc b x) (r2hc b y) 0 = ∑ l ∈ range (2 * b), ∑ m ∈ range (2 * b),
      x l * y m * cos (angle b ((0 : ℕ) * (l + m - j : ℤ))) := by
    rw [← coefficient_mul]
    simp [mul, r2hc, angle]
  have hhalf : (-1) ^ j * mul b (r2hc b x) (r2hc b y) b = ∑ l ∈ range (2 * b),
      ∑ m ∈ range (2 * b), x l * y m * cos (angle b (b * (l + m - j : ℤ))) := by
    rw [← coefficient_mul, mul, if_pos (.inr rfl), r2hc_low le_rfl, r2hc_low le_rfl]
    simp only [angle_half hb, Int.cast_natCast, sin_nat_mul_pi, mul_zero, sum_const_zero, zero_mul,
      sub_zero, add_zero, cos_nat_mul_pi]
    ring
  have hrest : ∀ k ∈ range (b - 1), mul b (r2hc b x) (r2hc b y) (k + 1) *
        cos (angle b ((k + 1 : ℕ) * j)) - mul b (r2hc b x) (r2hc b y) (2 * b - (k + 1)) *
          sin (angle b ((k + 1 : ℕ) * j)) = ∑ l ∈ range (2 * b), ∑ m ∈ range (2 * b),
        x l * y m * cos (angle b ((k + 1 : ℕ) * (l + m - j : ℤ))) := by
    intro k hk
    have hk := mem_range.1 hk
    have hlt : k + 1 < b := by omega
    rw [← coefficient_mul, mul, if_neg (by omega), if_pos hlt, mul, if_neg (by omega),
      if_neg (by omega), show 2 * b - (2 * b - (k + 1)) = k + 1 by omega, r2hc_low hlt.le,
      r2hc_low hlt.le, r2hc_high hlt, r2hc_high hlt]
    ring
  have hcircle := sum_circle hb (c := fun k => ∑ l ∈ range (2 * b), ∑ m ∈ range (2 * b),
    x l * y m * cos (angle b (k * (l + m - j : ℤ)))) fun k hk =>
      sum_congr rfl fun l _ => sum_congr rfl fun m _ => by rw [cos_angle_reflect hb hk]
  rw [hc2r, hzero, hhalf, sum_congr rfl hrest, hcircle]

/-- **The convolution theorem**: the product of the spectra belongs to the circular convolution. -/
theorem hc2r_mul {b : ℕ} (hb : 0 < b) (x y : ℕ → ℝ) (j : ℕ) :
    hc2r b (mul b (r2hc b x) (r2hc b y)) j = 2 * b * ∑ m ∈ range (2 * b),
      ∑ l ∈ range (2 * b), if (2 * b : ℤ) ∣ l + m - j then y m * x l else 0 := by
  rw [hc2r_mul_eq hb, sum_comm]
  rw [sum_congr rfl fun l _ => sum_comm]
  rw [sum_comm, mul_sum]
  refine sum_congr rfl fun m _ => ?_
  rw [mul_sum]
  refine sum_congr rfl fun l _ => ?_
  rw [← mul_sum, sum_cos hb]
  split
  · ring
  · ring

/-- Overlap-save: if `y` ends in the first half then the second half of the circular convolution is
free of wrap-around. -/
theorem hc2r_mul_half {b : ℕ} (hb : 0 < b) (x : ℕ → ℝ) {y : ℕ → ℝ} (hy : ∀ m, b ≤ m → y m = 0)
    {i : ℕ} (hi : i < b) : hc2r b (mul b (r2hc b x) (r2hc b y)) (b + i) =
      2 * b * ∑ m ∈ range b, y m * x (b + i - m) := by
  rw [hc2r_mul hb, two_mul b, sum_range_add]
  have htail : ∑ m ∈ range b, ∑ l ∈ range (b + b),
      (if (2 * b : ℤ) ∣ l + (b + m : ℕ) - (b + i : ℕ) then y (b + m) * x l else 0) = 0 := by
    refine sum_eq_zero fun m _ => sum_eq_zero fun l _ => ?_
    rw [hy (b + m) (Nat.le_add_right b m), zero_mul, ite_self]
  rw [htail, add_zero]
  congr 1
  refine sum_congr rfl fun m hm => ?_
  have hm := mem_range.1 hm
  rw [sum_eq_single (b + i - m)]
  · rw [if_pos]
    rw [Nat.cast_sub (by omega)]
    simp
  · intro l hl hne
    have hl := mem_range.1 hl
    rw [if_neg]
    intro hdvd
    have hzero := Int.eq_zero_of_abs_lt_dvd hdvd (abs_lt.2 ⟨by push_cast; omega, by push_cast; omega⟩)
    push_cast at hzero
    omega
  · intro hn
    exact absurd (mem_range.2 (by omega)) hn

/-! ## Linearity -/

theorem r2hc_congr {b : ℕ} {x y : ℕ → ℝ} (h : ∀ j < 2 * b, x j = y j) (k : ℕ) :
    r2hc b x k = r2hc b y k := by
  have hsum : ∀ f : ℕ → ℝ, ∑ j ∈ range (2 * b), x j * f j = ∑ j ∈ range (2 * b), y j * f j :=
    fun f => sum_congr rfl fun j hj => by rw [h j (mem_range.1 hj)]
  rw [r2hc, r2hc, hsum, hsum]

theorem r2hc_linear (b : ℕ) (a c : ℝ) (x y : ℕ → ℝ) (k : ℕ) :
    r2hc b (fun j => a * x j + c * y j) k = a * r2hc b x k + c * r2hc b y k := by
  have hsum : ∀ f : ℕ → ℝ, ∑ j ∈ range (2 * b), (a * x j + c * y j) * f j =
      a * ∑ j ∈ range (2 * b), x j * f j + c * ∑ j ∈ range (2 * b), y j * f j := by
    intro f
    rw [mul_sum, mul_sum, ← sum_add_distrib]
    exact sum_congr rfl fun j _ => by ring
  unfold r2hc
  split
  · exact hsum _
  · rw [hsum]
    ring

theorem hc2r_congr {b : ℕ} (hb : 0 < b) {X Y : ℕ → ℝ} (h : ∀ k < 2 * b, X k = Y k) (j : ℕ) :
    hc2r b X j = hc2r b Y j := by
  unfold hc2r
  rw [h 0 (by omega), h b (by omega)]
  congr 2
  refine sum_congr rfl fun k hk => ?_
  have hk := mem_range.1 hk
  rw [h (k + 1) (by omega), h (2 * b - (k + 1)) (by omega)]

theorem hc2r_add (b : ℕ) (X Y : ℕ → ℝ) (j : ℕ) :
    hc2r b (fun k => X k + Y k) j = hc2r b X j + hc2r b Y j := by
  unfold hc2r
  simp only [add_mul, add_sub_add_comm, sum_add_distrib]
  ring

theorem hc2r_zero (b j : ℕ) : hc2r b (fun _ => 0) j = 0 := by
  simp [hc2r]

/-! ## Any number of samples -/

/-- What the number `j` contributes to the place `k` of the transform of `n` numbers, which need not
be an even number. -/
noncomputable def basis (n k j : ℕ) : ℝ :=
  if k ≤ n / 2 then cos (2 * π * (k * j) / n) else -sin (2 * π * ((n - k : ℕ) * j) / n)

/-- The transform of `n` real numbers. -/
noncomputable def transform {n : ℕ} (x : Fin n → ℝ) (k : Fin n) : ℝ := ∑ j, x j * basis n k j

/-- The transform of the sum of several signals. -/
theorem transform_sum {ι : Type*} {n : ℕ} (xs : List ι) (x : ι → Fin n → ℝ) (k : Fin n) :
    transform (fun j => (xs.map fun i => x i j).sum) k =
      (xs.map fun i => ∑ j, x i j * basis n k j).sum := by
  induction xs with
  | nil => simp [transform]
  | cons i xs ih =>
    simp only [transform, List.map_cons, List.sum_cons, add_mul, Finset.sum_add_distrib] at ih ⊢
    rw [ih]

end Lib.HalfComplex
