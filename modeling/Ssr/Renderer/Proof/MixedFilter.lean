import Ssr.Apf.Proof.Convolver
import Ssr.Lib.Ramp
import Ssr.Renderer.Proof.OneFilter
import Ssr.Renderer.RenderSource

/-!
# Convolution with filters that change

If the partition `k` belongs to the filter of `k` blocks ago then a coefficient meets the signal with
the filter that was there `τ / b` blocks ago, where `τ` is its delay: the output is the convolution
with the `mixed` filter (`convolve_mixed`). All filters must have coefficients in all partitions,
because the loop over the spectra does not go on at an empty partition.
-/

set_option autoImplicit false

namespace Apf.Conv

open Lib Finset

/-! ## Spectra of filters -/

section
variable {α : Type} [Zero α]

/-- The spectrum of the partition with these coefficients; there is none if none are left. -/
def spectrum (fftw : Fftw α) (b : ℕ) : List α → Option (Buffer α)
  | [] => none
  | c :: cs => some (fft fftw b fun i => if i < b then (c :: cs).getD i 0 else 0)

theorem spectrum_congr {fftw : Fftw α} {b : ℕ} {cs ds : List α} (hempty : cs = [] ↔ ds = [])
    (h : ∀ i < b, cs.getD i 0 = ds.getD i 0) : spectrum fftw b cs = spectrum fftw b ds := by
  cases cs with
  | nil => rw [hempty.1 rfl]
  | cons c cs =>
    cases ds with
    | nil => cases hempty.2 rfl
    | cons d ds =>
      rw [spectrum, spectrum]
      congr 2
      funext i
      by_cases hi : i < b
      · rw [if_pos hi, if_pos hi, h i hi]
      · rw [if_neg hi, if_neg hi]

end

variable {fftw : Fftw ℝ} {b : ℕ}

theorem contents_preparePartition (hb : 0 < b) (coefficients : List ℝ) :
    (preparePartition fftw b coefficients .new).1.contents = spectrum fftw b coefficients := by
  cases coefficients with
  | nil => simp [preparePartition, spectrum, FftNode.contents]
  | cons c cs =>
    have hchunk : ¬ min b (c :: cs).length = 0 := by
      rw [List.length_cons]
      omega
    simp only [preparePartition, if_neg hchunk, FftNode.contents, spectrum, Bool.false_eq_true,
      if_false]
    congr 2
    funext i
    by_cases hi : i < (c :: cs).length
    · simp only [lt_min_iff, hi, and_true]
    · rw [if_neg (by omega), List.getD_eq_default _ _ (by omega), ite_self]

theorem contents_prepareFilter (hb : 0 < b) (coefficients : List ℝ) (partitions k : ℕ) :
    contents (prepareFilter fftw b coefficients (List.replicate partitions .new)) k =
      if k < partitions then spectrum fftw b (coefficients.drop (k * b)) else none := by
  induction partitions generalizing coefficients k with
  | zero => rfl
  | succ partitions ih =>
    rw [List.replicate_succ, prepareFilter, preparePartition_snd]
    cases k with
    | zero =>
      rw [if_pos (Nat.succ_pos _), Nat.zero_mul, List.drop_zero]
      exact contents_preparePartition hb coefficients
    | succ k =>
      have hnext := ih (coefficients.drop b) k
      rw [List.drop_drop, Nat.add_comm b, ← Nat.succ_mul] at hnext
      simp only [Nat.succ_lt_succ_iff]
      exact hnext

theorem length_prepareFilter (coefficients : List ℝ) (partitions : ℕ) :
    (prepareFilter fftw b coefficients (List.replicate partitions .new)).length = partitions := by
  induction partitions generalizing coefficients with
  | zero => rfl
  | succ partitions ih => exact congrArg (· + 1) (ih _)

/-- The contents, partition by partition. -/
theorem map_contents_congr {filter filter' : List (FftNode ℝ)}
    (hlength : filter.length = filter'.length)
    (h : ∀ k < filter.length, contents filter k = contents filter' k) :
    filter.map FftNode.contents = filter'.map FftNode.contents := by
  refine List.ext_getElem (by simpa using hlength) fun k hk hk' => ?_
  rw [List.length_map] at hk hk'
  have hcontents := h k hk
  rw [contents, contents, List.getElem?_eq_getElem hk, List.getElem?_eq_getElem hk'] at hcontents
  rw [List.getElem_map, List.getElem_map]
  exact hcontents

/-! ## What the loop reads -/

/-- Behind the flag of an empty node nothing is read. -/
theorem multiplySpectra_congr {filters filters' : List (FftNode ℝ)}
    (h : filters.map FftNode.contents = filters'.map FftNode.contents) (inputs : List (FftNode ℝ))
    (output : FftNode ℝ) :
    multiplySpectra inputs filters output = multiplySpectra inputs filters' output := by
  induction filters generalizing filters' inputs output with
  | nil =>
    obtain rfl := List.map_eq_nil_iff.1 h.symm
    rfl
  | cons filter filters ih =>
    cases filters' with
    | nil => cases h
    | cons filter' filters' =>
      obtain ⟨hhead, htail⟩ := List.cons.inj h
      cases inputs with
      | nil => rfl
      | cons input inputs =>
        rw [multiplySpectra, multiplySpectra]
        unfold FftNode.contents at hhead
        cases hzero : filter.zero with
        | true =>
          have hzero' : filter'.zero = true := by
            by_contra hne
            simp [hzero, hne] at hhead
          rw [hzero', ih htail]
          simp
        | false =>
          have hzero' : filter'.zero = false := by
            by_contra hne
            simp [hzero, hne] at hhead
          have hdata : filter.data = filter'.data := by
            simpa [hzero, hzero'] using hhead
          rw [hzero', hdata, ih htail, ih htail]

theorem convolve_congr {ptrs ptrs' : List (FftNode ℝ)}
    (h : ptrs.map FftNode.contents = ptrs'.map FftNode.contents) (input : Input ℝ) (weight : ℝ) :
    convolve fftw input ptrs weight = convolve fftw input ptrs' weight := by
  rw [convolve, convolve, multiplySpectra_congr h]

/-- Without a weight nothing is heard. -/
theorem convolve_weight_zero {α : Type} [Scalar α] (fftw : Fftw α) (input : Input α)
    (ptrs : List (FftNode α)) (i : ℕ) : convolve fftw input ptrs 0 i = 0 := by
  have hkeep : ∀ (filters inputs : List (FftNode α)) (output : FftNode α),
      (multiplySpectra inputs filters output).zero = true →
        multiplySpectra inputs filters output = output := by
    intro filters
    induction filters with
    | nil =>
      intro inputs output _
      cases inputs <;> rfl
    | cons filter filters ih =>
      intro inputs output
      cases inputs with
      | nil => exact fun _ => rfl
      | cons input inputs =>
        rw [multiplySpectra]
        split
        · exact ih _ _
        · intro hzero
          have hsame := ih _ _ hzero
          rw [hsame] at hzero
          cases hzero
  rw [convolve, zero_div]
  dsimp only
  split
  · rename_i hzero
    rw [hkeep _ _ _ hzero]
    rfl
  · exact mul_zero _

/-- What is heard is the convolution with the coefficients up to the newest silence. -/
theorem heard_eq_lastBlock {i : ℕ} (hi : i < b) {count : ℕ} {h : List ℝ}
    (hlength : h.length ≤ count * b) (past : List (Buffer ℝ)) :
    heard b count past h i = lastBlock b (h.take (sounding b past * b)) past.reverse i := by
  have htake : ∀ (count : ℕ) (h : List ℝ) (past : List (Buffer ℝ)),
      heard b count past (h.take (sounding b past * b)) i = heard b count past h i := by
    intro count
    induction count with
    | zero => exact fun _ _ => rfl
    | succ count ih =>
      intro h past
      rw [heard, heard]
      by_cases hsilent : silent b past = true
      · rw [if_pos hsilent, if_pos hsilent]
      · cases past with
        | nil => exact absurd (silent_nil b) hsilent
        | cons x past =>
          rw [if_neg hsilent, if_neg hsilent, sounding, if_neg hsilent, List.tail_cons,
            List.drop_take, Nat.succ_mul, Nat.add_sub_cancel, ih]
          congr 1
          refine sum_congr rfl fun j hj => ?_
          have hj : j < sounding b past * b + b := by
            have := mem_range.1 hj
            omega
          rw [List.getD_eq_getElem?_getD, List.getD_eq_getElem?_getD, List.getElem?_take_of_lt hj]
  have hle : (h.take (sounding b past * b)).length ≤ count * b :=
    (List.length_take_le' _ _).trans hlength
  have hrest : (h.take (sounding b past * b)).drop (sounding b past * b) = [] := by
    rw [List.drop_eq_nil_iff]
    exact List.length_take_le _ _
  rw [lastBlock_eq_heard hi hle past, hrest, lastBlock_nil_filter, add_zero, htake]

/-! ## The mixed filter -/

/-- From `filters`, which begins with the newest one, the filter whose partition `k` is that of the
filter `k`. -/
def mixed (b partitions : ℕ) (filters : List (List ℝ)) : List ℝ :=
  (List.range (min partitions filters.length * b)).map fun τ => (filters.getD (τ / b) []).getD τ 0

theorem mixed_nil (b partitions : ℕ) : mixed b partitions [] = [] := by
  simp [mixed]

theorem spectrum_mixed (hb : 0 < b) {partitions k : ℕ} (hk : k < partitions)
    {filters : List (List ℝ)} (hfull : ∀ h ∈ filters, (partitions - 1) * b < h.length) :
    spectrum fftw b ((mixed b partitions filters).drop (k * b)) =
      filters[k]?.bind fun h => spectrum fftw b (h.drop (k * b)) := by
  by_cases hlt : k < filters.length
  · have hmin : k + 1 ≤ min partitions filters.length := by omega
    have hroom : k * b + b ≤ min partitions filters.length * b := by
      rw [← Nat.succ_mul]
      exact Nat.mul_le_mul_right b hmin
    rw [List.getElem?_eq_getElem hlt, Option.bind_some]
    refine spectrum_congr ?_ fun i hi => ?_
    · have hlong : k * b < filters[k].length :=
        lt_of_le_of_lt (Nat.mul_le_mul_right b (by omega)) (hfull _ (List.getElem_mem hlt))
      have hmixed : k * b < (mixed b partitions filters).length := by
        rw [mixed, List.length_map, List.length_range]
        omega
      rw [List.drop_eq_nil_iff, List.drop_eq_nil_iff]
      omega
    · have hdiv : (k * b + i) / b = k := by
        rw [Nat.add_comm, Nat.add_mul_div_right i k hb, Nat.div_eq_of_lt hi, Nat.zero_add]
      rw [List.getD_eq_getElem?_getD, List.getElem?_drop, mixed, List.getElem?_map,
        List.getElem?_range (by omega), Option.map_some, Option.getD_some, hdiv,
        List.getD_eq_getElem _ _ hlt, List.getD_eq_getElem?_getD, List.getD_eq_getElem?_getD,
        List.getElem?_drop]
  · have hempty : (mixed b partitions filters).drop (k * b) = [] := by
      rw [List.drop_eq_nil_iff, mixed, List.length_map, List.length_range]
      exact Nat.mul_le_mul_right b (by omega)
    rw [hempty, List.getElem?_eq_none (by omega)]
    rfl

/-- **Convolution with filters that change.** -/
theorem convolve_mixed (hexact : fftw.IsExact) (hb : 0 < b) (h8 : b % 8 = 0) {input : Input ℝ}
    {past : List (Buffer ℝ)} (hinput : Input.Holds b input past) {ptrs : List (FftNode ℝ)}
    (hlength : ptrs.length = input.partitions) {filters : List (List ℝ)}
    (hptrs : ∀ k < input.partitions, contents ptrs k =
      filters[k]?.bind fun h => spectrum fftw b (h.drop (k * b)))
    (hfull : ∀ h ∈ filters, (input.partitions - 1) * b < h.length) (weight : ℝ) {i : ℕ}
    (hi : i < b) :
    convolve fftw input ptrs weight i = weight *
      lastBlock b ((mixed b input.partitions filters).take (sounding b past * b))
        past.reverse i := by
  have hmixed : (mixed b input.partitions filters).length ≤ input.partitions * b := by
    rw [mixed, List.length_map, List.length_range]
    exact Nat.mul_le_mul_right b (min_le_left _ _)
  have hsame : ptrs.map FftNode.contents = (prepareFilter fftw b (mixed b input.partitions filters)
      (List.replicate input.partitions .new)).map FftNode.contents := by
    refine map_contents_congr (hlength.trans (length_prepareFilter _ _).symm) fun k hk => ?_
    rw [hlength] at hk
    rw [contents_prepareFilter hb, if_pos hk, spectrum_mixed hb hk hfull, hptrs k hk]
  rw [convolve_congr hsame, convolve_eq hexact hb h8 hinput _ weight hi,
    heard_eq_lastBlock hi hmixed]

/-- All but the last partition are full. -/
theorem minPartitions_pred_mul_lt {n size : ℕ} (hn : 0 < n) (hsize : 0 < size) :
    (minPartitions n size - 1) * n < size := by
  have hdiv := Nat.div_mul_le_self (size + n - 1) n
  have hpos : 0 < minPartitions n size := Nat.div_pos (by omega) hn
  obtain ⟨p, hp⟩ := Nat.exists_eq_succ_of_ne_zero hpos.ne'
  rw [minPartitions] at hp ⊢
  rw [hp, Nat.succ_mul] at hdiv
  rw [hp, Nat.succ_sub_one]
  omega

end Apf.Conv

/-! ## The inputs of the headphone renderers -/

namespace Ssr

open Apf.Conv

variable {k : ℕ} (fftw : Fftw ℝ) (empty : Fin k → Input ℝ)

/-- The input of a source after the blocks of `past`, which begins with the newest one. -/
noncomputable def inputAfter (past : List (Frame ℝ k)) (i : Fin k) : Input ℝ :=
  (past.reverse.map fun f => f.samples i).foldl (Input.addBlock fftw) (empty i)

theorem inputAfter_cons (f : Frame ℝ k) (past : List (Frame ℝ k)) (i : Fin k) :
    inputAfter fftw empty (f :: past) i =
      (inputAfter fftw empty past i).addBlock fftw (f.samples i) := by
  simp [inputAfter]

end Ssr
