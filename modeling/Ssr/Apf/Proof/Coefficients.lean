import Ssr.Apf.Convolver
import Ssr.Lib.HalfComplex

/-!
# The order of the coefficients

`sortedIndex b m` is where `_sort_coefficients` puts the element `m` of a half-complex spectrum
(`sortCoefficients_apply`, `unsortCoefficients_apply`). In this order the loops of
`_multiply_partition_cpp` and `_multiply_partition_simd`, which are the same function, add the
product of two spectra (`multiplyPartitionCpp_apply`).
-/

set_option autoImplicit false

namespace Apf.Conv

open Lib

variable {α : Type}

/-! ## Assignments -/

/-- All assignments to the element `n` agree. -/
theorem assign_apply {source : Buffer α} {n : ℕ} {v : α} {indices : List (ℕ × ℕ)}
    {target : Buffer α} (h : ∀ ij ∈ indices, ij.1 = n → source ij.2 = v)
    (hsome : target n = v ∨ ∃ ij ∈ indices, ij.1 = n) : assign target source indices n = v := by
  induction indices generalizing target with
  | nil =>
    rcases hsome with h | ⟨ij, hij, -⟩
    · exact h
    · cases hij
  | cons ij indices ih =>
    refine ih (fun kl hkl => h kl (List.mem_cons_of_mem ij hkl)) ?_
    by_cases hn : n = ij.1
    · left
      simp only [if_pos hn]
      exact h ij List.mem_cons_self hn.symm
    · simp only [if_neg hn]
      rcases hsome with hv | ⟨kl, hkl, hkln⟩
      · exact .inl hv
      · rcases List.mem_cons.1 hkl with rfl | hkl
        · exact absurd hkln.symm hn
        · exact .inr ⟨kl, hkl, hkln⟩

/-! ## The order -/

/-- Groups of eight: the real parts of four coefficients and their imaginary parts. The first group
has the real coefficient `b` in the place of the imaginary part of the coefficient 0. -/
def sortedIndex (b m : ℕ) : ℕ :=
  if m < b then 8 * (m / 4) + m % 4
  else if m = b then 4
  else 8 * ((2 * b - m) / 4) + 4 + (2 * b - m) % 4

theorem sortedIndex_real {b m : ℕ} (h : m < b) : sortedIndex b m = 8 * (m / 4) + m % 4 :=
  if_pos h

theorem sortedIndex_last (b : ℕ) : sortedIndex b b = 4 := by
  rw [sortedIndex, if_neg (Nat.lt_irrefl b), if_pos rfl]

theorem sortedIndex_imaginary {b k : ℕ} (hpos : 0 < k) (h : k < b) :
    sortedIndex b (2 * b - k) = 8 * (k / 4) + 4 + k % 4 := by
  have hk : 2 * b - (2 * b - k) = k := by omega
  rw [sortedIndex, if_neg (by omega), if_neg (by omega), hk]

theorem mem_sortIndices {b : ℕ} (hb : 0 < b) (h8 : b % 8 = 0) {n m : ℕ} :
    (n, m) ∈ sortIndices b ↔ m < 2 * b ∧ n = sortedIndex b m := by
  unfold sortIndices
  simp only [List.mem_append, List.mem_cons, List.mem_flatMap, List.mem_map, List.mem_range,
    Prod.mk.injEq, List.not_mem_nil, or_false]
  constructor
  · have hreal : ∀ m < b, m < 2 * b ∧ 8 * (m / 4) + m % 4 = sortedIndex b m := fun m hm =>
      ⟨by omega, (sortedIndex_real hm).symm⟩
    have himaginary : ∀ k, 0 < k → k < b →
        2 * b - k < 2 * b ∧ 8 * (k / 4) + 4 + k % 4 = sortedIndex b (2 * b - k) := fun k hpos hk =>
      ⟨by omega, (sortedIndex_imaginary hpos hk).symm⟩
    rintro (h | ⟨i, hi, ⟨ii, hii, rfl, rfl⟩ | ⟨ii, hii, rfl, rfl⟩⟩)
    -- the first group
    · rcases h with ⟨rfl, rfl⟩ | ⟨rfl, rfl⟩ | ⟨rfl, rfl⟩ | ⟨rfl, rfl⟩ | ⟨rfl, rfl⟩ | ⟨rfl, rfl⟩ |
        ⟨rfl, rfl⟩ | ⟨rfl, rfl⟩
      · exact hreal 0 (by omega)
      · exact hreal 1 (by omega)
      · exact hreal 2 (by omega)
      · exact hreal 3 (by omega)
      · exact ⟨by omega, (sortedIndex_last m).symm⟩
      · exact himaginary 1 (by decide) (by omega)
      · exact himaginary 2 (by decide) (by omega)
      · exact himaginary 3 (by decide) (by omega)
    · rw [sortedIndex_real (by omega)]
      omega
    · rw [Nat.sub_sub, sortedIndex_imaginary (by omega) (by omega)]
      omega
  · rintro ⟨hm, rfl⟩
    rcases Nat.lt_trichotomy m b with hlt | rfl | hgt
    · rw [sortedIndex_real hlt]
      by_cases hlow : m < 4
      · left
        obtain rfl | rfl | rfl | rfl : m = 0 ∨ m = 1 ∨ m = 2 ∨ m = 3 := by omega
        all_goals simp
      · exact .inr ⟨m / 4 - 1, by omega, .inl ⟨m % 4, by omega, by omega, by omega⟩⟩
    · rw [sortedIndex_last]
      left
      simp
    · obtain ⟨k, hpos, hk, rfl⟩ : ∃ k, 0 < k ∧ k < b ∧ m = 2 * b - k :=
        ⟨2 * b - m, by omega, by omega, by omega⟩
      rw [sortedIndex_imaginary hpos hk]
      by_cases hlow : k < 4
      · left
        obtain rfl | rfl | rfl : k = 1 ∨ k = 2 ∨ k = 3 := by omega
        all_goals simp
      · exact .inr ⟨k / 4 - 1, by omega, .inr ⟨k % 4, by omega, by omega, by omega⟩⟩

theorem sortedIndex_lt {b : ℕ} (hb : 0 < b) (h8 : b % 8 = 0) {m : ℕ} (hm : m < 2 * b) :
    sortedIndex b m < 2 * b := by
  unfold sortedIndex
  split <;> (try split) <;> omega

theorem sortedIndex_injective {b : ℕ} (h8 : b % 8 = 0) {m n : ℕ} (hm : m < 2 * b) (hn : n < 2 * b)
    (h : sortedIndex b m = sortedIndex b n) : m = n := by
  unfold sortedIndex at h
  split at h <;> split at h <;> (try split at h) <;> (try split at h) <;> omega

section
variable [Zero α] {b m : ℕ}

theorem sortCoefficients_apply (hb : 0 < b) (h8 : b % 8 = 0) (hm : m < 2 * b) (data : Buffer α) :
    sortCoefficients b data (sortedIndex b m) = data m := by
  refine assign_apply (fun ij hij hn => ?_) (.inr ⟨(sortedIndex b m, m), ?_, rfl⟩)
  · obtain ⟨hlt, heq⟩ := (mem_sortIndices hb h8).1 hij
    rw [sortedIndex_injective h8 hlt hm (heq.symm.trans hn)]
  · exact (mem_sortIndices hb h8).2 ⟨hm, rfl⟩

theorem unsortCoefficients_apply (hb : 0 < b) (h8 : b % 8 = 0) (hm : m < 2 * b) (data : Buffer α) :
    unsortCoefficients b data m = data (sortedIndex b m) := by
  refine assign_apply (fun ij hij hn => ?_) (.inr ⟨(m, sortedIndex b m), ?_, rfl⟩)
  · obtain ⟨kl, hkl, rfl⟩ := List.mem_map.1 hij
    obtain ⟨-, heq⟩ := (mem_sortIndices hb h8).1 hkl
    change data kl.1 = _
    rw [heq, ← hn]
    rfl
  · exact List.mem_map.2 ⟨(sortedIndex b m, m), (mem_sortIndices hb h8).2 ⟨hm, rfl⟩, rfl⟩

end

/-! ## Products -/

section
variable [Add α] [Sub α] [Mul α]

/-- What a pass over the group of `n` adds to the element `n`. -/
def groupProduct (signal filter : Buffer α) (n : ℕ) : α :=
  if n % 8 < 4 then signal n * filter n - signal (n + 4) * filter (n + 4)
  else signal (n - 4) * filter n + signal n * filter (n - 4)

omit [Sub α] [Mul α] in
theorem addAt_self (buffer : Buffer α) (i : ℕ) (x : α) : addAt buffer i x i = buffer i + x :=
  if_pos rfl

omit [Sub α] [Mul α] in
theorem addAt_of_ne {i n : ℕ} (h : n ≠ i) (buffer : Buffer α) (x : α) :
    addAt buffer i x n = buffer n :=
  if_neg h

theorem groupProduct_real (signal filter : Buffer α) {n : ℕ} (h : n % 8 < 4) :
    groupProduct signal filter n = signal n * filter n - signal (n + 4) * filter (n + 4) :=
  if_pos h

theorem groupProduct_imaginary (signal filter : Buffer α) {n : ℕ} (h : n % 8 < 4) :
    groupProduct signal filter (n + 4) = signal n * filter (n + 4) + signal (n + 4) * filter n :=
  if_neg (by omega)

theorem multiplyGroupCpp_apply (signal filter output : Buffer α) (i n : ℕ) :
    multiplyGroupCpp signal filter output (8 * i) n =
      if n / 8 = i then output n + groupProduct signal filter n else output n := by
  simp only [multiplyGroupCpp, List.foldl_cons, List.foldl_nil]
  split
  · rename_i hi
    obtain h | ⟨n, h, rfl⟩ : n % 8 < 4 ∨ ∃ m, m % 8 < 4 ∧ n = m + 4 :=
      (Nat.lt_or_ge (n % 8) 4).imp_right fun h => ⟨n - 4, by omega, by omega⟩
    · rw [groupProduct_real signal filter h]
      obtain rfl | rfl | rfl | rfl : n = 8 * i ∨ n = 8 * i + 1 ∨ n = 8 * i + 2 ∨ n = 8 * i + 3 := by
        omega
      all_goals simp (disch := omega) only [addAt_self, addAt_of_ne]
    · rw [groupProduct_imaginary signal filter h]
      obtain rfl | rfl | rfl | rfl : n = 8 * i ∨ n = 8 * i + 1 ∨ n = 8 * i + 2 ∨ n = 8 * i + 3 := by
        omega
      all_goals simp (disch := omega) only [addAt_self, addAt_of_ne]
  · simp (disch := omega) only [addAt_of_ne]

omit [Add α] [Sub α] [Mul α] in
theorem store_lane {i n : ℕ} (h : i ≤ n ∧ n < i + 4) (buffer : Buffer α) (v : Fin 4 → α) :
    store buffer i v n = v ⟨n - i, Nat.sub_lt_left_of_lt_add h.1 h.2⟩ :=
  dif_pos h

omit [Add α] [Sub α] [Mul α] in
theorem store_of_not {i n : ℕ} (h : ¬ (i ≤ n ∧ n < i + 4)) (buffer : Buffer α) (v : Fin 4 → α) :
    store buffer i v n = buffer n :=
  dif_neg h

theorem multiplyGroupSimd_apply (signal filter output : Buffer α) (i n : ℕ) :
    multiplyGroupSimd signal filter output (8 * i) n =
      if n / 8 = i then output n + groupProduct signal filter n else output n := by
  simp only [multiplyGroupSimd]
  split
  · rename_i hi
    obtain h | ⟨n, h, rfl⟩ : n % 8 < 4 ∨ ∃ m, m % 8 < 4 ∧ n = m + 4 :=
      (Nat.lt_or_ge (n % 8) 4).imp_right fun h => ⟨n - 4, by omega, by omega⟩
    · rw [groupProduct_real signal filter h, store_of_not (by omega), store_lane (by omega)]
      simp only [load, Pi.add_apply, Pi.sub_apply, Pi.mul_apply]
      rw [show 8 * i + (n - 8 * i) = n by omega, show 8 * i + 4 + (n - 8 * i) = n + 4 by omega]
    · rw [groupProduct_imaginary signal filter h, store_lane (by omega)]
      simp only [load, Pi.add_apply, Pi.mul_apply]
      rw [show 8 * i + (n + 4 - (8 * i + 4)) = n by omega,
        show 8 * i + 4 + (n + 4 - (8 * i + 4)) = n + 4 by omega]
  · rw [store_of_not (by omega), store_of_not (by omega)]

omit [Sub α] [Mul α] in
/-- A loop whose passes add to the elements of their groups. -/
theorem foldl_groups {pass : Buffer α → ℕ → Buffer α} {u : Buffer α}
    (h : ∀ output i n, pass output (8 * i) n = if n / 8 = i then output n + u n else output n)
    (partitionSize n : ℕ) (output : Buffer α) :
    (groups partitionSize).foldl pass output n =
      if n / 8 < (partitionSize + 7) / 8 then output n + u n else output n := by
  unfold groups
  induction (partitionSize + 7) / 8 with
  | zero => rfl
  | succ count ih =>
    rw [List.range_succ, List.map_append, List.foldl_append, List.map_singleton, List.foldl_cons,
      List.foldl_nil, h, ih]
    by_cases hlast : n / 8 = count
    · rw [if_pos hlast, if_neg (by omega), if_pos (by omega)]
    · rw [if_neg hlast]
      exact if_congr (by omega) rfl rfl

/-- The four lanes of a register are four passes of the scalar loop. -/
theorem multiplyPartitionSimd_eq (partitionSize : ℕ) (output signal filter : Buffer α) :
    multiplyPartitionSimd partitionSize output signal filter =
      multiplyPartitionCpp partitionSize output signal filter := by
  have hloop : (groups partitionSize).foldl (multiplyGroupSimd signal filter) output =
      (groups partitionSize).foldl (multiplyGroupCpp signal filter) output := by
    funext n
    rw [foldl_groups (multiplyGroupSimd_apply signal filter),
      foldl_groups (multiplyGroupCpp_apply signal filter)]
  rw [multiplyPartitionSimd, multiplyPartitionCpp, hloop]

variable {partitionSize n : ℕ} (output signal filter : Buffer α)

theorem multiplyPartitionCpp_sole (h : n = 0 ∨ n = 4) :
    multiplyPartitionCpp partitionSize output signal filter n = output n + signal n * filter n := by
  rcases h with rfl | rfl
  · rfl
  · rfl

theorem multiplyPartitionCpp_group (hn : n < partitionSize) (h : ¬ (n = 0 ∨ n = 4)) :
    multiplyPartitionCpp partitionSize output signal filter n =
      output n + groupProduct signal filter n := by
  rw [not_or] at h
  simp only [multiplyPartitionCpp, if_neg h.1, if_neg h.2]
  rw [foldl_groups (multiplyGroupCpp_apply signal filter), if_pos (by omega)]

end

theorem multiplyPartition_eq [Field α] {partitionSize n : ℕ} (hn : n < partitionSize)
    (output signal filter : Buffer α) :
    multiplyPartition output signal filter n =
      multiplyPartitionCpp partitionSize output signal filter n := by
  unfold multiplyPartition
  split
  · rename_i h
    rw [h]
    rfl
  split
  · rename_i h
    rw [h]
    rfl
  · rename_i hzero hfour
    rw [multiplyPartitionCpp_group output signal filter hn (not_or.2 ⟨hzero, hfour⟩), groupProduct]
    split
    · rfl
    · rfl

/-- **The product of two spectra** is added to the output. -/
theorem multiplyPartitionCpp_apply [Ring α] {b m : ℕ} (hb : 0 < b) (h8 : b % 8 = 0)
    (hm : m < 2 * b) {signal filter X Y : Buffer α}
    (hX : ∀ k < 2 * b, signal (sortedIndex b k) = X k)
    (hY : ∀ k < 2 * b, filter (sortedIndex b k) = Y k) (output : Buffer α) :
    multiplyPartitionCpp (2 * b) output signal filter (sortedIndex b m) =
      output (sortedIndex b m) + HalfComplex.mul b X Y m := by
  by_cases hsole : m = 0 ∨ m = b
  · have hindex : sortedIndex b m = 0 ∨ sortedIndex b m = 4 := by
      unfold sortedIndex
      rcases hsole with rfl | rfl
      · simp [hb]
      · simp
    rw [multiplyPartitionCpp_sole _ _ _ hindex, HalfComplex.mul, if_pos hsole, hX m hm, hY m hm]
  · have hindex : ¬ (sortedIndex b m = 0 ∨ sortedIndex b m = 4) := by
      unfold sortedIndex
      split <;> (try split) <;> omega
    rw [multiplyPartitionCpp_group _ _ _ (sortedIndex_lt hb h8 hm) hindex, HalfComplex.mul,
      if_neg hsole, ← hX m hm, ← hY m hm, ← hX (2 * b - m) (by omega), ← hY (2 * b - m) (by omega)]
    split
    · rename_i hlt
      have hpartner : sortedIndex b (2 * b - m) = sortedIndex b m + 4 := by
        unfold sortedIndex
        rw [if_neg (by omega), if_neg (by omega), if_pos hlt]
        omega
      have hreal : sortedIndex b m % 8 < 4 := by
        rw [sortedIndex, if_pos hlt]
        omega
      rw [groupProduct_real signal filter hreal, hpartner]
    · rename_i hge
      have hpartner : sortedIndex b m = sortedIndex b (2 * b - m) + 4 := by
        unfold sortedIndex
        rw [if_neg (by omega), if_neg (by omega), if_pos (by omega)]
        omega
      have hreal : sortedIndex b (2 * b - m) % 8 < 4 := by
        rw [sortedIndex, if_pos (by omega)]
        omega
      rw [hpartner, groupProduct_imaginary signal filter hreal]

theorem multiplyPartition_apply [Field α] {b m : ℕ} (hb : 0 < b) (h8 : b % 8 = 0) (hm : m < 2 * b)
    {signal filter X Y : Buffer α} (hX : ∀ k < 2 * b, signal (sortedIndex b k) = X k)
    (hY : ∀ k < 2 * b, filter (sortedIndex b k) = Y k) (output : Buffer α) :
    multiplyPartition output signal filter (sortedIndex b m) =
      output (sortedIndex b m) + HalfComplex.mul b X Y m := by
  rw [multiplyPartition_eq (sortedIndex_lt hb h8 hm),
    multiplyPartitionCpp_apply hb h8 hm hX hY output]

/-! ## Permutations -/

/-- The order as a permutation of the coefficients. -/
noncomputable def sortedPerm {b : ℕ} (hb : 0 < b) (h8 : b % 8 = 0) : Equiv.Perm (Fin (2 * b)) :=
  Equiv.ofBijective (fun m => ⟨sortedIndex b m, sortedIndex_lt hb h8 m.2⟩)
    (Finite.injective_iff_bijective.1 fun m n h =>
      Fin.ext (sortedIndex_injective h8 m.2 n.2 (congrArg Fin.val h)))

/-- **Sorted spectra**: the two permutations undo each other, the two loops agree, and after them
the complex products of the coefficients have been added. -/
theorem sortedSpectra_mul [CommRing α] {b : ℕ} (hb : 8 ≤ b) (h8 : b % 8 = 0) :
    (∃ p : Equiv.Perm (Fin (2 * b)), ∀ (data : Buffer α) (n : Fin (2 * b)),
      sortCoefficients b data (p n) = data n ∧ unsortCoefficients b data n = data (p n)) ∧
    (∀ (data : Buffer α) (n : ℕ), n < 2 * b →
      unsortCoefficients b (sortCoefficients b data) n = data n) ∧
    (∀ output signal filter : Buffer α,
      multiplyPartitionSimd (2 * b) output signal filter =
        multiplyPartitionCpp (2 * b) output signal filter) ∧
    ∀ (output X Y : Buffer α) (k : ℕ), k ≤ b →
      let before := unsortCoefficients b output
      let after := unsortCoefficients b
        (multiplyPartitionCpp (2 * b) output (sortCoefficients b X) (sortCoefficients b Y))
      HalfComplex.re after k = HalfComplex.re before k +
        (HalfComplex.re X k * HalfComplex.re Y k - HalfComplex.im b X k * HalfComplex.im b Y k) ∧
      HalfComplex.im b after k = HalfComplex.im b before k +
        (HalfComplex.re X k * HalfComplex.im b Y k + HalfComplex.im b X k * HalfComplex.re Y k) ∧
      (k = 0 ∨ k = b → after k = before k + X k * Y k) := by
  have hpos : 0 < b := by omega
  refine ⟨⟨sortedPerm hpos h8, fun data n => ⟨sortCoefficients_apply hpos h8 n.2 data,
    unsortCoefficients_apply hpos h8 n.2 data⟩⟩, fun data n hn => ?_,
    multiplyPartitionSimd_eq (2 * b), ?_⟩
  · rw [unsortCoefficients_apply hpos h8 hn, sortCoefficients_apply hpos h8 hn]
  · intro output X Y k hk before after
    have hafter : ∀ n < 2 * b, after n = before n + HalfComplex.mul b X Y n := by
      intro n hn
      simp only [after, before]
      rw [unsortCoefficients_apply hpos h8 hn, unsortCoefficients_apply hpos h8 hn]
      exact multiplyPartitionCpp_apply hpos h8 hn (fun m hm => sortCoefficients_apply hpos h8 hm X)
        (fun m hm => sortCoefficients_apply hpos h8 hm Y) output
    refine ⟨?_, ?_, fun hends => ?_⟩
    · rw [← HalfComplex.re_mul X Y hk]
      exact hafter k (by omega)
    · rw [← HalfComplex.im_mul X Y hk]
      unfold HalfComplex.im
      split
      · rw [add_zero]
      · exact hafter (2 * b - k) (by omega)
    · rw [hafter k (by omega), HalfComplex.mul_ends X Y hends]

/-- Blocks of eight samples. -/
theorem sortedSpectra_mul_eight :
    (∃ p : Equiv.Perm (Fin 16), ∀ (data : Buffer ℤ) (n : Fin 16),
      sortCoefficients 8 data (p n) = data n ∧ unsortCoefficients 8 data n = data (p n)) ∧
    ∀ output signal filter : Buffer ℤ, multiplyPartitionSimd 16 output signal filter =
      multiplyPartitionCpp 16 output signal filter :=
  have h := sortedSpectra_mul (α := ℤ) (b := 8) (by decide) (by decide)
  ⟨h.1, h.2.2.1⟩

end Apf.Conv
