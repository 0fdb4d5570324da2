import Ssr.Apf.Fade

/-!
# Fades

A signal that does not change is not changed by a crossfade, either (`raisedCosineFade_add`).
-/

set_option autoImplicit false

namespace Apf.CombineChannels

theorem crossfadeData_real {n j : ℕ} (hn : n ≠ 0) :
    crossfadeData n j = (Real.cos (j / n * Real.pi) + 1) / 2 := by
  have hn' : (n : ℝ) ≠ 0 := Nat.cast_ne_zero.2 hn
  have harg : (j : ℝ) * (2 : ℕ) * Real.pi / (2 * n : ℕ) = j / n * Real.pi := by
    push_cast
    field_simp
  rw [crossfadeData]
  change Real.cos ((j : ℝ) * (2 : ℕ) * Real.pi / (2 * n : ℕ)) * _ + _ = _
  rw [harg]
  push_cast
  ring

/-- **The fades add up to one.** -/
theorem raisedCosineFade_add {n : ℕ} (i : Fin n) :
    (raisedCosineFade n).fadeOut i + (raisedCosineFade n).fadeIn i = (1 : ℝ) := by
  have hn : n ≠ 0 := by
    rintro rfl
    exact i.elim0
  have hn' : (n : ℝ) ≠ 0 := Nat.cast_ne_zero.2 hn
  have hreverse : ((n - i : ℕ) : ℝ) / n * Real.pi = Real.pi - i / n * Real.pi := by
    rw [Nat.cast_sub i.isLt.le]
    field_simp
  show crossfadeData n i + crossfadeData n (n - i) = (1 : ℝ)
  rw [crossfadeData_real hn, crossfadeData_real hn, hreverse, Real.cos_pi_sub]
  ring

end Apf.CombineChannels
