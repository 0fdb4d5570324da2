import Ssr.Renderer.BinauralProcess
import Ssr.Renderer.Proof.MixedFilter

/-!
# Interpolated filters

The transform is linear, so the interpolation of two filters, partition by partition, is the filter
with the interpolated coefficients (`contents_interpolated`).
-/

set_option autoImplicit false

namespace Apf.Conv

open Lib

/-! ## The transform is linear -/

section
variable {α : Type} [CommRing α]

/-- Assignments are linear, wherever the sources are. -/
theorem assign_linear (a c : α) {x y z : Buffer α} {indices : List (ℕ × ℕ)}
    (h : ∀ ij ∈ indices, z ij.2 = a * x ij.2 + c * y ij.2) {x₀ y₀ z₀ : Buffer α}
    (h₀ : ∀ m, z₀ m = a * x₀ m + c * y₀ m) (m : ℕ) :
    assign z₀ z indices m = a * assign x₀ x indices m + c * assign y₀ y indices m := by
  induction indices generalizing x₀ y₀ z₀ with
  | nil => exact h₀ m
  | cons ij indices ih =>
    simp only [assign, List.foldl_cons] at ih ⊢
    refine ih (fun ij' hij' => h ij' (List.mem_cons_of_mem ij hij')) fun m => ?_
    split
    · exact h ij List.mem_cons_self
    · exact h₀ m

end

variable {fftw : Fftw ℝ} {b : ℕ}

theorem fft_linear (hexact : fftw.IsExact) (hb : 0 < b) (h8 : b % 8 = 0) (a c : ℝ)
    (x y : Buffer ℝ) (m : ℕ) :
    fft fftw b (fun i => a * x i + c * y i) m = a * fft fftw b x m + c * fft fftw b y m := by
  unfold fft sortCoefficients
  refine assign_linear a c (fun ij hij => ?_) (fun _ => by simp) m
  obtain ⟨hlt, -⟩ := (mem_sortIndices hb h8).1 hij
  rw [hexact.r2hc b _ ij.2 hb hlt, hexact.r2hc b x ij.2 hb hlt, hexact.r2hc b y ij.2 hb hlt,
    HalfComplex.r2hc_linear]

theorem fft_zero (hexact : fftw.IsExact) (hb : 0 < b) (h8 : b % 8 = 0) (m : ℕ) :
    fft fftw b (fun _ => 0) m = 0 := by
  have hlinear := fft_linear hexact hb h8 0 0 (fun _ => 0) (fun _ => 0) m
  simpa using hlinear

/-! ## Partitions -/

/-- Where the first filter has a partition. -/
theorem contents_transformNested_of_some {α : Type} [Zero α] (f : α → α → α)
    {in1 in2 out : List (FftNode α)} {k : ℕ} (hk : k < out.length) {data : Buffer α}
    (h : contents in1 k = some data) :
    contents (transformNested f in1 in2 out) k =
      some fun i => f (data i) ((contents in2 k).elim 0 fun data => data i) := by
  have hhead : ∀ filter : List (FftNode α), contents filter 0 =
      (filter.head?.filter (!·.zero)).map FftNode.data := by
    intro filter
    rw [contents, ← List.head?_eq_getElem?]
    cases filter.head? with
    | none => rfl
    | some node =>
      rw [Option.bind_some, FftNode.contents]
      cases hzero : node.zero with
      | true => simp [hzero]
      | false => simp [hzero]
  induction out generalizing in1 in2 k with
  | nil => cases hk
  | cons result out ih =>
    cases k with
    | succ k =>
      have htail : ∀ filter : List (FftNode α), contents filter (k + 1) = contents filter.tail k :=
        fun filter => by rw [contents, contents, List.getElem?_tail]
      rw [htail] at h ⊢
      rw [htail in2]
      exact ih (Nat.lt_of_succ_lt_succ hk) h
    | zero =>
      rw [hhead, Option.map_eq_some_iff] at h
      obtain ⟨node, hnode, rfl⟩ := h
      rw [hhead in2, contents, transformNested, List.getElem?_cons_zero, Option.bind_some, hnode]
      cases in2.head?.filter (!·.zero) with
      | none => rfl
      | some node' => rfl

/-- The coefficients of the interpolation between `h` and a shorter filter. -/
noncomputable def interpolated (factor : ℝ) (h neutral : List ℝ) : List ℝ :=
  h.mapIdx fun τ c => (1 - factor) * c + factor * neutral.getD τ 0

theorem getD_interpolated (factor : ℝ) {h neutral : List ℝ} (hle : neutral.length ≤ h.length)
    (τ : ℕ) : (interpolated factor h neutral).getD τ 0 =
      (1 - factor) * h.getD τ 0 + factor * neutral.getD τ 0 := by
  by_cases hτ : τ < h.length
  · rw [List.getD_eq_getElem _ _ (by simpa [interpolated] using hτ), List.getD_eq_getElem _ _ hτ]
    simp [interpolated]
  · rw [List.getD_eq_default _ _ (by simp [interpolated]; omega),
      List.getD_eq_default _ _ (by omega), List.getD_eq_default _ _ (by omega)]
    simp

/-- A partition of coefficients, as data for the transform. -/
theorem spectrum_drop {h : List ℝ} {k : ℕ} (hlt : k * b < h.length) :
    spectrum fftw b (h.drop (k * b)) =
      some (fft fftw b fun i => if i < b then h.getD (k * b + i) 0 else 0) := by
  cases hdrop : h.drop (k * b) with
  | nil => exact absurd (List.drop_eq_nil_iff.1 hdrop) (by omega)
  | cons c cs =>
    rw [spectrum]
    congr 2
    funext i
    rw [← hdrop, List.getD_eq_getElem?_getD, List.getElem?_drop, List.getD_eq_getElem?_getD]

/-- What a partition of a shorter filter contributes. -/
theorem elim_spectrum (hexact : fftw.IsExact) (hb : 0 < b) (h8 : b % 8 = 0) (neutral : List ℝ)
    (k m : ℕ) : ((contents (filter fftw b neutral 0) k).elim 0 fun data => data m) =
      fft fftw b (fun i => if i < b then neutral.getD (k * b + i) 0 else 0) m := by
  have hcontents : contents (filter fftw b neutral 0) k = if k < minPartitions b neutral.length
      then spectrum fftw b (neutral.drop (k * b)) else none := contents_prepareFilter hb neutral _ k
  by_cases hlt : k * b < neutral.length
  · have hk : k < minPartitions b neutral.length := by
      have hle := minPartitions_mul hb neutral.length
      exact Nat.lt_of_mul_lt_mul_right (hlt.trans_le hle)
    rw [hcontents, if_pos hk, spectrum_drop hlt]
    rfl
  · have hzero : (fun i => if i < b then neutral.getD (k * b + i) 0 else 0) =
        fun _ : ℕ => (0 : ℝ) := by
      funext i
      rw [List.getD_eq_default _ _ (by omega), ite_self]
    have hnone : contents (filter fftw b neutral 0) k = none := by
      rw [hcontents, List.drop_eq_nil_of_le (by omega)]
      exact ite_self _
    rw [hnone, hzero, fft_zero hexact hb h8]
    rfl

/-- **The interpolation of two filters** has the interpolated coefficients. -/
theorem contents_interpolated (hexact : fftw.IsExact) (hb : 0 < b) (h8 : b % 8 = 0)
    (factor : ℝ) {h neutral : List ℝ} (hle : neutral.length ≤ h.length) {partitions : ℕ}
    (hfull : (partitions - 1) * b < h.length) {k : ℕ} (hk : k < partitions) :
    contents (transformNested (fun one two => (1 - factor) * one + factor * two)
      (prepareFilter fftw b h (List.replicate partitions .new)) (filter fftw b neutral 0)
      (List.replicate partitions .new)) k =
        spectrum fftw b ((interpolated factor h neutral).drop (k * b)) := by
  have hlt : k * b < h.length := (Nat.mul_le_mul_right b (by omega)).trans_lt hfull
  have hone : contents (prepareFilter fftw b h (List.replicate partitions .new)) k = _ :=
    contents_prepareFilter hb h partitions k
  rw [if_pos hk, spectrum_drop hlt] at hone
  rw [contents_transformNested_of_some _ (by simpa using hk) hone,
    spectrum_drop (by simpa [interpolated] using hlt)]
  congr 1
  funext m
  rw [elim_spectrum hexact hb h8, ← fft_linear hexact hb h8]
  congr 1
  funext i
  rw [getD_interpolated factor hle]
  split
  · rfl
  · ring

end Apf.Conv
