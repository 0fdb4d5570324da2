import Mathlib.Algebra.BigOperators.Intervals
import Mathlib.Algebra.BigOperators.Ring.Finset
import Mathlib.Data.List.GetD
import Mathlib.Tactic.Ring

/-!
# Convolution block by block

A signal that arrives in blocks of `b` samples is convolved with `h`. `lastBlock` is the newest
block of the result; `lastBlock_concat` computes it from the two newest blocks and the first `b`
coefficients, and from what the older blocks give with the other coefficients.
-/

set_option autoImplicit false

namespace Lib

open Finset

variable {α : Type} [CommRing α]

/-- The samples of the blocks, in order, with zeros at the end. -/
def stream (b : ℕ) (xs : List (ℕ → α)) (t : ℕ) : α := (xs.getD (t / b) fun _ => 0) (t % b)

/-- The linear convolution at the time `t`. -/
def linearConvolution (h : List α) (x : ℕ → α) (t : ℕ) : α :=
  ∑ j ∈ range (t + 1), h.getD j 0 * x (t - j)

/-- The samples of the linear convolution that belong to the newest block. -/
def lastBlock (b : ℕ) (h : List α) (xs : List (ℕ → α)) (i : ℕ) : α :=
  linearConvolution h (stream b xs) ((xs.length - 1) * b + i)

/-- The two newest blocks of a signal, one after the other; `past` starts with the newest block. -/
def window (b : ℕ) (past : List (ℕ → α)) (i : ℕ) : α :=
  if i < b then (past.getD 1 fun _ => 0) i else (past.getD 0 fun _ => 0) (i - b)

/-! ## Streams -/

theorem stream_block {b r : ℕ} (hr : r < b) (xs : List (ℕ → α)) (n : ℕ) :
    stream b xs (n * b + r) = (xs.getD n fun _ => 0) r := by
  have hdiv : (n * b + r) / b = n := by
    rw [Nat.add_comm, Nat.add_mul_div_right r n (by omega), Nat.div_eq_of_lt hr, Nat.zero_add]
  have hmod : (n * b + r) % b = r := by
    rw [Nat.add_comm, Nat.add_mul_mod_self_right, Nat.mod_eq_of_lt hr]
  rw [stream, hdiv, hmod]

theorem stream_concat {b t : ℕ} {xs : List (ℕ → α)} (ht : t < xs.length * b) (x : ℕ → α) :
    stream b (xs ++ [x]) t = stream b xs t := by
  have hlt : t / b < xs.length := Nat.div_lt_of_lt_mul (by rwa [Nat.mul_comm])
  rw [stream, stream, List.getD_append _ _ _ _ hlt]

theorem lastBlock_nil (b : ℕ) (h : List α) (i : ℕ) : lastBlock b h [] i = 0 := by
  unfold lastBlock linearConvolution
  exact sum_eq_zero fun j _ => by simp [stream]

theorem lastBlock_nil_filter (b : ℕ) (xs : List (ℕ → α)) (i : ℕ) : lastBlock b [] xs i = 0 := by
  unfold lastBlock linearConvolution
  exact sum_eq_zero fun j _ => by simp

/-! ## One block more -/

/-- The first `b` coefficients meet the two newest blocks. -/
theorem stream_window {b i j : ℕ} (hi : i < b) (x : ℕ → α) (past : List (ℕ → α)) (hj : j < b)
    (h : j ≤ past.length * b + i) :
    stream b (past.reverse ++ [x]) (past.length * b + i - j) = window b (x :: past) (b + i - j) := by
  by_cases hji : j ≤ i
  · rw [Nat.add_sub_assoc hji, stream_block (by omega), window, if_neg (by omega),
      show b + i - j - b = i - j by omega, List.getD_append_right _ _ _ _ (by simp)]
    simp
  · cases past with
    | nil =>
      rw [List.length_nil, Nat.zero_mul] at h
      omega
    | cons y past =>
      have hindex : (y :: past).length * b + i - j = past.length * b + (b + i - j) := by
        rw [List.length_cons, Nat.succ_mul]
        omega
      rw [hindex, stream_block (by omega), window, if_pos (by omega),
        List.getD_append _ _ _ _ (by simp), List.reverse_cons,
        List.getD_append_right _ _ _ _ (by simp)]
      simp

/-- **The newest block** of a convolution. -/
theorem lastBlock_concat {b i : ℕ} (hi : i < b) (h : List α) (x : ℕ → α) (past : List (ℕ → α)) :
    lastBlock b h (past.reverse ++ [x]) i =
      ∑ j ∈ range b, h.getD j 0 * window b (x :: past) (b + i - j) +
        lastBlock b (h.drop b) past.reverse i := by
  have hwindow : ∀ j ∈ range b, j ≤ past.length * b + i →
      h.getD j 0 * stream b (past.reverse ++ [x]) (past.length * b + i - j) =
        h.getD j 0 * window b (x :: past) (b + i - j) := fun j hj hle => by
    rw [stream_window hi x past (mem_range.1 hj) hle]
  have hlength : (past.reverse ++ [x]).length - 1 = past.length := by simp
  rw [lastBlock, linearConvolution, hlength]
  cases past with
  | nil =>
    rw [List.reverse_nil, lastBlock_nil, add_zero]
    have hlow : ∑ j ∈ range (i + 1), h.getD j 0 * window b [x] (b + i - j) =
        ∑ j ∈ range b, h.getD j 0 * window b [x] (b + i - j) := by
      refine sum_subset (range_subset_range.2 hi) fun j _ hj => ?_
      have hj : i < j := by simpa using hj
      rw [window, if_pos (by omega)]
      simp
    rw [← hlow, List.length_nil, Nat.zero_mul, Nat.zero_add]
    refine sum_congr rfl fun j hj => ?_
    have hj := mem_range.1 hj
    simpa using hwindow j (mem_range.2 (by omega)) (by simp; omega)
  | cons y past =>
    have hsplit : (y :: past).length * b + i + 1 = b + (past.length * b + i + 1) := by
      rw [List.length_cons, Nat.succ_mul]
      omega
    rw [hsplit, sum_range_add]
    congr 1
    · refine sum_congr rfl fun j hj => hwindow j hj ?_
      have hj := mem_range.1 hj
      omega
    · rw [lastBlock, linearConvolution, List.length_reverse, List.length_cons,
        Nat.add_sub_cancel]
      refine sum_congr rfl fun j hj => ?_
      have hj := mem_range.1 hj
      have hindex : (past.length + 1) * b + i - (b + j) = past.length * b + i - j := by
        rw [Nat.succ_mul]
        omega
      rw [hindex, stream_concat, List.getD_eq_getElem?_getD, List.getD_eq_getElem?_getD,
        List.getElem?_drop]
      rw [List.length_reverse, List.length_cons, Nat.succ_mul]
      omega

end Lib
