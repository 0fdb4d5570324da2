import Mathlib.Algebra.Group.Nat.Defs
import Mathlib.Algebra.Group.Int.Defs
import Mathlib.Algebra.Order.Monoid.Unbundled.Pow
import Mathlib.Tactic.Common

/-!
# Machine words and `apf/math.h`

`size_t` is a 64-bit unsigned integer. Its values are natural numbers below `2 ^ 64`, its operators
wrap (`add64`, `sub64`, `mul64`). Differences of iterators are 64-bit signed integers, which are
converted from and to `size_t` (`toDifference`, `toSize`).
-/

set_option autoImplicit false

namespace Apf

/-- Number of values of `size_t`. -/
def word : ℕ := 2 ^ 64

def add64 (a b : ℕ) : ℕ := (a + b) % word
def sub64 (a b : ℕ) : ℕ := (word + a - b % word) % word
def mul64 (a b : ℕ) : ℕ := (a * b) % word

theorem add64_eq {a b : ℕ} (h : a + b < word) : add64 a b = a + b := Nat.mod_eq_of_lt h

theorem sub64_eq {a b : ℕ} (h : b ≤ a) (ha : a < word) : sub64 a b = a - b := by
  unfold sub64
  rw [Nat.mod_eq_of_lt (Nat.lt_of_le_of_lt h ha), show word + a - b = (a - b) + word by omega,
    Nat.add_mod_right]
  exact Nat.mod_eq_of_lt (by omega)

/-! ## Differences -/

/-- The conversion to `difference_type`. -/
def toDifference (x : ℤ) : ℤ := x.bmod word

/-- The conversion to `size_t`. -/
def toSize (x : ℤ) : ℕ := (x % word).toNat

/-- `wrap(x, full)` for signed integers. -/
def wrap (x full : ℤ) : ℤ :=
  let x := x.tmod full
  if x < 0 then x + full else x

theorem toDifference_eq {x : ℤ} (hle : -2 ^ 63 ≤ x) (hlt : x < 2 ^ 63) : toDifference x = x := by
  refine Int.bmod_eq_of_le_mul_two ?_ ?_
  · unfold word
    omega
  · unfold word
    omega

theorem wrap_eq {x full : ℤ} (h : 0 < full) : wrap x full = x % full := by
  have hnonneg := Int.emod_nonneg x h.ne'
  have hlt := Int.emod_lt_of_pos x h
  simp only [wrap, Int.tmod_eq_emod]
  split <;> split <;> omega

/-! ## `next_power_of_2` -/

/-- The loop `while (power_of_2 < number) power_of_2 *= 2;`, `none` when `fuel` runs out. -/
def nextPowerOf2Loop (number : ℕ) : ℕ → ℕ → Option ℕ
  | 0, _ => none
  | fuel + 1, powerOf2 =>
    if powerOf2 < number then nextPowerOf2Loop number fuel (mul64 powerOf2 2) else some powerOf2

/-- `next_power_of_2(number)` with `T = size_t`. -/
def nextPowerOf2 (fuel number : ℕ) : Option ℕ := nextPowerOf2Loop number fuel 1

/-- Once the doubling has wrapped to 0 the loop never ends. -/
theorem nextPowerOf2Loop_wrapped {number : ℕ} (hn : 0 < number) :
    ∀ fuel, nextPowerOf2Loop number fuel 0 = none
  | 0 => rfl
  | fuel + 1 => by
    unfold nextPowerOf2Loop
    rw [if_pos hn, show mul64 0 2 = 0 by decide]
    exact nextPowerOf2Loop_wrapped hn fuel

theorem mul64_two_pow {k : ℕ} (hk : k + 1 < 64) : mul64 (2 ^ k) 2 = 2 ^ (k + 1) := by
  unfold mul64 word
  rw [← Nat.pow_succ]
  exact Nat.mod_eq_of_lt (Nat.pow_lt_pow_right (by decide) hk)

/-- Where the loop stops: at the least power of two from `2 ^ k` on that is at least `number`. -/
theorem nextPowerOf2Loop_spec {number fuel k r : ℕ} (hn : 0 < number) (hk : k < 64)
    (h : nextPowerOf2Loop number fuel (2 ^ k) = some r) :
    ∃ j, k ≤ j ∧ j < 64 ∧ r = 2 ^ j ∧ number ≤ r ∧ (k < j → 2 ^ (j - 1) < number) := by
  induction fuel generalizing k with
  | zero => simp [nextPowerOf2Loop] at h
  | succ fuel ih =>
    unfold nextPowerOf2Loop at h
    split at h
    · rename_i hlt
      by_cases hk' : k + 1 < 64
      · rw [mul64_two_pow hk'] at h
        obtain ⟨j, hkj, hj, hr, hle, hmin⟩ := ih hk' h
        refine ⟨j, by omega, hj, hr, hle, fun _ => ?_⟩
        rcases Nat.lt_or_ge (k + 1) j with hlt' | hge
        · exact hmin hlt'
        · rw [show j - 1 = k by omega]; exact hlt
      · obtain rfl : k = 63 := by omega
        rw [show mul64 (2 ^ 63) 2 = 0 by decide, nextPowerOf2Loop_wrapped hn] at h
        cases h
    · rename_i hge
      cases h
      exact ⟨k, Nat.le_refl _, hk, rfl, by omega, fun h => absurd h (Nat.lt_irrefl _)⟩

/-- **`next_power_of_2`** returns the least power of two that is at least `number`. -/
theorem nextPowerOf2_spec {number fuel r : ℕ} (hn : 0 < number)
    (h : nextPowerOf2 fuel number = some r) :
    ∃ j, j < 64 ∧ r = 2 ^ j ∧ number ≤ r ∧ (0 < j → 2 ^ (j - 1) < number) := by
  obtain ⟨j, -, hj, hr, hle, hmin⟩ := nextPowerOf2Loop_spec (k := 0) hn (by decide) h
  exact ⟨j, hj, hr, hle, hmin⟩

theorem nextPowerOf2_of_le_one {number fuel r : ℕ} (hn : number ≤ 1)
    (h : nextPowerOf2 fuel number = some r) : r = 1 := by
  cases fuel with
  | zero => cases h
  | succ fuel =>
    rw [nextPowerOf2, nextPowerOf2Loop, if_neg (by omega)] at h
    exact (Option.some.inj h).symm

/-- The loop ends for every number that has a power of two above it. -/
theorem nextPowerOf2Loop_total {number : ℕ} (hn : number ≤ 2 ^ 63) :
    ∀ {d k : ℕ}, k + d = 63 → ∃ r, nextPowerOf2Loop number (d + 1) (2 ^ k) = some r
  | 0, k, hk => by
    obtain rfl : k = 63 := by omega
    exact ⟨2 ^ 63, by rw [nextPowerOf2Loop, if_neg (by omega)]⟩
  | d + 1, k, hk => by
    rw [nextPowerOf2Loop]
    split
    · rw [mul64_two_pow (by omega)]
      exact nextPowerOf2Loop_total hn (by omega)
    · exact ⟨_, rfl⟩

theorem nextPowerOf2_total {number : ℕ} (hn : number ≤ 2 ^ 63) :
    ∃ r, nextPowerOf2 64 number = some r :=
  nextPowerOf2Loop_total hn (k := 0) rfl

end Apf
