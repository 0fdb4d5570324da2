import Mathlib.Order.Lattice
import Mathlib.Data.List.Basic

/-!
# Sorting and binary search

A `SortBy key` sorts by the key and leaves open how elements with equal keys are arranged. `upperBound`
is the binary search that halves the rest of the range in each step. In ascending keys it finds the
place of a value (`split_upperBound`), and only ascending keys have a place for every value
(`pairwise_iff_split`).
-/

set_option autoImplicit false

namespace Lib

variable {α κ : Type*} [LinearOrder κ]

structure SortBy (key : α → κ) where
  sort : List α → List α
  perm : ∀ xs, (sort xs).Perm xs
  sorted : ∀ xs, (sort xs).Pairwise (key · ≤ key ·)

/-- Stable sorting. -/
def SortBy.merge (key : α → κ) : SortBy key where
  sort xs := xs.mergeSort fun a b => decide (key a ≤ key b)
  perm xs := List.mergeSort_perm xs _
  sorted xs := by
    have htrans : ∀ a b c, decide (key a ≤ key b) = true → decide (key b ≤ key c) = true →
        decide (key a ≤ key c) = true := by
      intro a b c hab hbc
      rw [decide_eq_true_eq] at *
      exact le_trans hab hbc
    have htotal : ∀ a b, (decide (key a ≤ key b) || decide (key b ≤ key a)) = true := by
      intro a b
      rw [Bool.or_eq_true, decide_eq_true_eq, decide_eq_true_eq]
      exact le_total _ _
    exact (List.pairwise_mergeSort htrans htotal xs).imp of_decide_eq_true

/-- The rest of the range starts at `first` and has the length `len`. -/
def upperBoundLoop (p : ℕ → Bool) (first len : ℕ) : ℕ :=
  if len = 0 then first
  else
    let half := len / 2
    let middle := first + half
    if p middle then upperBoundLoop p first half
    else upperBoundLoop p (middle + 1) (len - half - 1)
termination_by len

def upperBound (keys : List κ) (value : κ) : ℕ :=
  upperBoundLoop (fun i => (keys[i]?).any (value < ·)) 0 keys.length

/-- If `p` does not change from true to false then the loop finds where it becomes true. -/
theorem upperBoundLoop_spec {p : ℕ → Bool} {first len : ℕ}
    (hp : ∀ i j, i ≤ j → j < first + len → p i = true → p j = true) :
    first ≤ upperBoundLoop p first len ∧ upperBoundLoop p first len ≤ first + len ∧
      (∀ i, first ≤ i → i < upperBoundLoop p first len → p i = false) ∧
      ∀ i, upperBoundLoop p first len ≤ i → i < first + len → p i = true := by
  fun_induction upperBoundLoop p first len with
  | case1 first => exact ⟨Nat.le_refl _, Nat.le_refl _, fun i h h' => by omega, fun i h h' => by omega⟩
  | case2 first len hlen half middle hmiddle ih =>
    have hhalf : half < len := Nat.div_lt_self (by omega) (by omega)
    obtain ⟨hl, hu, hbefore, hafter⟩ := ih fun i j hij hj => hp i j hij (by omega)
    refine ⟨hl, by omega, hbefore, fun i hi hlt => ?_⟩
    by_cases him : i < first + half
    · exact hafter i hi him
    · exact hp middle i (by omega) hlt hmiddle
  | case3 first len hlen half middle hmiddle ih =>
    have hhalf : half < len := Nat.div_lt_self (by omega) (by omega)
    have hend : middle + 1 + (len - half - 1) = first + len := by omega
    rw [hend] at ih
    obtain ⟨hl, hu, hbefore, hafter⟩ := ih hp
    refine ⟨by omega, hu, fun i hi hlt => ?_, hafter⟩
    by_cases him : middle < i
    · exact hbefore i him hlt
    · rw [← Bool.not_eq_true]
      exact fun h => hmiddle (hp i middle (by omega) (by omega) h)

/-- The first `k` keys are not greater than the value, the others are. -/
structure Split (keys : List κ) (value : κ) (k : ℕ) : Prop where
  le_length : k ≤ keys.length
  before : ∀ i (h : i < keys.length), i < k → keys[i] ≤ value
  after : ∀ i (h : i < keys.length), k ≤ i → value < keys[i]

theorem split_upperBound {keys : List κ} (h : keys.Pairwise (· ≤ ·)) (value : κ) :
    Split keys value (upperBound keys value) := by
  have hp : ∀ i (hi : i < keys.length),
      ((keys[i]?).any (value < ·) = true ↔ value < keys[i]) := by
    intro i hi
    rw [List.getElem?_eq_getElem hi]
    simp
  have hmono : ∀ i j, i ≤ j → j < 0 + keys.length → (keys[i]?).any (value < ·) = true →
      (keys[j]?).any (value < ·) = true := by
    intro i j hij hj hi
    rw [hp i (by omega)] at hi
    rw [hp j (by omega)]
    obtain rfl | hij := Nat.eq_or_lt_of_le hij
    · exact hi
    · exact lt_of_lt_of_le hi (List.pairwise_iff_getElem.1 h i j (by omega) (by omega) hij)
  obtain ⟨-, hle, hbefore, hafter⟩ := upperBoundLoop_spec hmono
  rw [Nat.zero_add] at hle hafter
  refine ⟨hle, fun i hi hk => ?_, fun i hi hk => (hp i hi).1 (hafter i hk hi)⟩
  have hfalse := hbefore i (Nat.zero_le i) hk
  rw [← Bool.not_eq_true, hp i hi, not_lt] at hfalse
  exact hfalse

theorem Split.unique {keys : List κ} {value : κ} {j k : ℕ} (hj : Split keys value j)
    (hk : Split keys value k) : j = k := by
  have hle : ∀ {j k}, Split keys value j → Split keys value k → j ≤ k := by
    intro j k hj hk
    by_contra hlt
    have hlen := hj.le_length
    have hkl : k < keys.length := by omega
    exact absurd (hj.before k hkl (by omega)) (not_le.2 (hk.after k hkl (Nat.le_refl k)))
  exact Nat.le_antisymm (hle hj hk) (hle hk hj)

/-- Keys that have a place for every one of them are ascending. -/
theorem pairwise_of_split {keys : List κ} (h : ∀ value ∈ keys, ∃ k, Split keys value k) :
    keys.Pairwise (· ≤ ·) := by
  rw [List.pairwise_iff_getElem]
  intro i j hi hj hij
  obtain ⟨k, hk⟩ := h keys[j] (List.getElem_mem hj)
  have hjk : j < k := by
    by_contra hkj
    exact lt_irrefl _ (hk.after j hj (by omega))
  exact hk.before i hi (by omega)

theorem pairwise_iff_split {keys : List κ} :
    keys.Pairwise (· ≤ ·) ↔ ∀ value ∈ keys, ∃ k, Split keys value k :=
  ⟨fun h value _ => ⟨_, split_upperBound h value⟩, pairwise_of_split⟩

end Lib
