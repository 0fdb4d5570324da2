import Ssr.Apf.CMath

/-!
# Angles over the reals

`fwrap` brings a number into the range from zero to `full`, and one turn is enough for the difference
of two numbers of this range.
-/

set_option autoImplicit false

namespace Apf

theorem deg2rad_real (x : ℝ) : deg2rad x = x * (Real.pi / 180) := by
  rw [deg2rad, piDiv180, Nat.cast_ofNat]
  rfl

variable {x full : ℝ}

theorem fmod_of_nonneg (hfull : 0 < full) (hx : 0 ≤ x) : CMath.fmod x full = x - full * ⌊x / full⌋ :=
  congrArg (fun n : ℤ => x - full * n) (if_pos (div_nonneg hx hfull.le))

theorem fmod_of_neg (hfull : 0 < full) (hx : x < 0) : CMath.fmod x full = x - full * ⌈x / full⌉ :=
  congrArg (fun n : ℤ => x - full * n) (if_neg (not_le.2 (div_neg_of_neg_of_pos hx hfull)))

theorem fmod_mem_of_nonneg (hfull : 0 < full) (hx : 0 ≤ x) :
    0 ≤ CMath.fmod x full ∧ CMath.fmod x full < full := by
  have hx' : x = full * (x / full) := by field_simp
  have hl := mul_le_mul_of_nonneg_left (Int.floor_le (x / full)) hfull.le
  have hu := mul_lt_mul_of_pos_left (Int.lt_floor_add_one (x / full)) hfull
  rw [fmod_of_nonneg hfull hx]
  constructor <;> linarith

theorem fmod_mem_of_neg (hfull : 0 < full) (hx : x < 0) :
    -full < CMath.fmod x full ∧ CMath.fmod x full ≤ 0 := by
  have hx' : x = full * (x / full) := by field_simp
  have hl := mul_le_mul_of_nonneg_left (Int.le_ceil (x / full)) hfull.le
  have hu := mul_lt_mul_of_pos_left (Int.ceil_lt_add_one (x / full)) hfull
  rw [fmod_of_neg hfull hx]
  constructor <;> linarith

theorem fwrap_mem (hfull : 0 < full) (x : ℝ) : 0 ≤ fwrap x full ∧ fwrap x full < full := by
  rw [fwrap]
  obtain hx | hx := le_or_gt 0 x
  · obtain ⟨hl, hu⟩ := fmod_mem_of_nonneg hfull hx
    rw [if_neg (not_lt.2 hl)]
    exact ⟨hl, hu⟩
  · obtain ⟨hl, hu⟩ := fmod_mem_of_neg hfull hx
    split
    · constructor <;> linarith
    · rename_i hneg
      exact ⟨not_lt.1 hneg, by linarith⟩

theorem fwrap_of_nonneg (hx : 0 ≤ x) (hlt : x < full) : fwrap x full = x := by
  have hfull : 0 < full := by linarith
  have hfloor : ⌊x / full⌋ = 0 :=
    Int.floor_eq_zero_iff.2 ⟨div_nonneg hx hfull.le, (div_lt_one hfull).2 hlt⟩
  rw [fwrap, fmod_of_nonneg hfull hx, hfloor, Int.cast_zero, mul_zero, sub_zero]
  exact if_neg (not_lt.2 hx)

theorem fwrap_of_neg (hx : x < 0) (hlt : -full < x) : fwrap x full = x + full := by
  have hfull : 0 < full := by linarith
  have hceil : ⌈x / full⌉ = 0 := by
    rw [Int.ceil_eq_iff, Int.cast_zero, zero_sub, lt_div_iff₀ hfull]
    exact ⟨by linarith, (div_neg_of_neg_of_pos hx hfull).le⟩
  rw [fwrap, fmod_of_neg hfull hx, hceil, Int.cast_zero, mul_zero, sub_zero]
  exact if_pos hx

/-- Wrapping takes away a multiple of `full`. -/
theorem fwrap_turns (x full : ℝ) : ∃ n : ℤ, fwrap x full = x + n * full := by
  have hfmod : ∃ n : ℤ, CMath.fmod x full = x - full * n := ⟨_, rfl⟩
  obtain ⟨n, hn⟩ := hfmod
  rw [fwrap, hn]
  split
  · refine ⟨1 - n, ?_⟩
    push_cast
    ring
  · refine ⟨-n, ?_⟩
    push_cast
    ring

/-- Numbers that differ by a multiple of `full` are wrapped to the same number. -/
theorem fwrap_congr {y : ℝ} (hfull : 0 < full) {n : ℤ} (h : x = y + n * full) :
    fwrap x full = fwrap y full := by
  obtain ⟨hx, hx'⟩ := fwrap_mem hfull x
  obtain ⟨hy, hy'⟩ := fwrap_mem hfull y
  obtain ⟨a, ha⟩ := fwrap_turns x full
  obtain ⟨b, hb⟩ := fwrap_turns y full
  have hdifference : fwrap x full = fwrap y full + ((a + n - b : ℤ) : ℝ) * full := by
    rw [ha, hb, h]
    push_cast
    ring
  have hlt : ((a + n - b : ℤ) : ℝ) < (1 : ℤ) := by
    refine lt_of_mul_lt_mul_right ?_ hfull.le
    rw [Int.cast_one, one_mul]
    linarith
  have hgt : ((-1 : ℤ) : ℝ) < (a + n - b : ℤ) := by
    refine lt_of_mul_lt_mul_right ?_ hfull.le
    rw [Int.cast_neg, Int.cast_one, neg_one_mul]
    linarith
  have hzero : a + n - b = 0 := by
    have hlt' := Int.cast_lt.1 hlt
    have hgt' := Int.cast_lt.1 hgt
    omega
  rw [hdifference, hzero, Int.cast_zero, zero_mul, add_zero]

/-! ## Full turns -/

theorem wrapTwoPi_eq (x : ℝ) : wrapTwoPi x = fwrap x (2 * Real.pi) := by
  rw [wrapTwoPi, Nat.cast_ofNat]
  rfl

theorem wrapTwoPi_mem (x : ℝ) : 0 ≤ wrapTwoPi x ∧ wrapTwoPi x < 2 * Real.pi := by
  rw [wrapTwoPi_eq]
  exact fwrap_mem Real.two_pi_pos x

theorem wrapTwoPi_turns (x : ℝ) : ∃ n : ℤ, wrapTwoPi x = x + n * (2 * Real.pi) := by
  rw [wrapTwoPi_eq]
  exact fwrap_turns x (2 * Real.pi)

theorem wrapTwoPi_of_nonneg (hx : 0 ≤ x) (hlt : x < 2 * Real.pi) : wrapTwoPi x = x := by
  rw [wrapTwoPi_eq, fwrap_of_nonneg hx hlt]

theorem wrapTwoPi_of_neg (hx : x < 0) (hlt : -(2 * Real.pi) < x) :
    wrapTwoPi x = x + 2 * Real.pi := by
  rw [wrapTwoPi_eq, fwrap_of_neg hx hlt]

theorem wrapTwoPi_zero : wrapTwoPi (0 : ℝ) = 0 := wrapTwoPi_of_nonneg le_rfl Real.two_pi_pos

end Apf
