import Mathlib.Data.List.Range

/-!
# Iterators

`traverse` is the loop `for (; it != past; ++it)`, given by the increment and the comparison of the
iterators. A range whose iterators can be numbered is traversed in this order, and the loop ends
(`traverse_eq`). A body that has a result for each of them gives a list (`mapM_eq`).
-/

set_option autoImplicit false

namespace Lib

variable {ι : Type*}

/-- The iterators from `it` up to `past`; `none` when `fuel` runs out. -/
def traverse (next : ι → ι) (same : ι → ι → Bool) : ℕ → ι → ι → Option (List ι)
  | 0, _, _ => none
  | fuel + 1, it, past =>
    if same it past then some [] else (traverse next same fuel (next it) past).map (it :: ·)

variable {next : ι → ι} {same : ι → ι → Bool} {nth : ℕ → ι} {it past : ι} {n : ℕ}

theorem traverse_from (hnext : ∀ i < n, next (nth i) = nth (i + 1))
    (hsame : ∀ i ≤ n, same (nth i) past = true ↔ i = n) {d i fuel : ℕ} (h : i + d = n)
    (hfuel : d < fuel) :
    traverse next same fuel (nth i) past = some ((List.range' i d).map nth) := by
  induction d generalizing i fuel with
  | zero =>
    obtain ⟨fuel, rfl⟩ := Nat.exists_eq_succ_of_ne_zero (Nat.ne_zero_of_lt hfuel)
    rw [traverse, if_pos ((hsame i (by omega)).2 (by omega))]
    rfl
  | succ d ih =>
    obtain ⟨fuel, rfl⟩ := Nat.exists_eq_succ_of_ne_zero (Nat.ne_zero_of_lt hfuel)
    have hne : ¬ same (nth i) past = true := by
      rw [hsame i (by omega)]
      omega
    rw [traverse, if_neg hne, hnext i (by omega), ih (by omega) (by omega)]
    rfl

/-- The range whose iterators are `nth 0`, ..., `nth (n - 1)`. -/
theorem traverse_eq (nth : ℕ → ι) (hfirst : nth 0 = it)
    (hnext : ∀ i < n, next (nth i) = nth (i + 1))
    (hsame : ∀ i ≤ n, same (nth i) past = true ↔ i = n) {fuel : ℕ} (hfuel : n < fuel) :
    traverse next same fuel it past = some ((List.range n).map nth) := by
  rw [← hfirst, traverse_from hnext hsame (Nat.zero_add n) hfuel, List.range_eq_range']

theorem mapM_eq {α β : Type*} {f : α → Option β} {g : α → β} {l : List α}
    (h : ∀ x ∈ l, f x = some (g x)) : l.mapM f = some (l.map g) := by
  induction l with
  | nil => rfl
  | cons x l ih =>
    rw [List.mapM_cons, h x List.mem_cons_self, ih fun y hy => h y (List.mem_cons_of_mem x hy)]
    rfl

end Lib
