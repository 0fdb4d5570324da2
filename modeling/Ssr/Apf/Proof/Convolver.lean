import Ssr.Apf.Proof.Input
import Ssr.Lib.BlockConvolution

/-!
# What the convolution engine computes

`Holds` is the invariant of `Input`: the spectra belong to the last blocks of the signal. From it
`convolve_eq` gives the output in terms of the signal: the sum `heard` ends at the first spectrum
that is zero, because `_multiply_spectra` does not go on to the next one there. `lastBlock_eq_heard`
compares this sum with the linear convolution, and `convolve_eq_convolution_iff` says when they
agree.
-/

set_option autoImplicit false

namespace Apf.Conv

open Lib Finset

/-! ## Signals

`past` is the list of the blocks that have been added, starting with the newest one. -/

/-- The two newest blocks are all zero. -/
noncomputable def silent (b : ℕ) (past : List (Buffer ℝ)) : Bool :=
  hasOnlyZeros b (past.getD 0 fun _ => 0) && hasOnlyZeros b (past.getD 1 fun _ => 0)

/-- The number of the blocks after the newest two consecutive blocks that are all zero. -/
noncomputable def sounding (b : ℕ) : List (Buffer ℝ) → ℕ
  | [] => 0
  | x :: past => if silent b (x :: past) then 0 else sounding b past + 1

/-- The part of a convolution with `rest` that `count` steps over the partitions compute, up to the
first spectrum that is zero. -/
noncomputable def heard (b : ℕ) : ℕ → List (Buffer ℝ) → List ℝ → ℕ → ℝ
  | 0, _, _, _ => 0
  | count + 1, past, rest, i =>
    if silent b past then 0
    else
      ∑ j ∈ range b, rest.getD j 0 * window b past (b + i - j) +
        heard b count past.tail (rest.drop b) i

theorem silent_nil (b : ℕ) : silent b [] = true := by
  simp [silent, hasOnlyZeros]

theorem heard_nil (b count : ℕ) (past : List (Buffer ℝ)) (i : ℕ) : heard b count past [] i = 0 := by
  induction count generalizing past with
  | zero => rfl
  | succ count ih =>
    rw [heard]
    split
    · rfl
    · rw [List.drop_nil, ih, add_zero]
      exact sum_eq_zero fun j _ => by simp

/-- **The newest block** of the convolution is what is heard, and what the blocks before the newest
silence give with the coefficients that are left. -/
theorem lastBlock_eq_heard {b i : ℕ} (hi : i < b) {count : ℕ} {h : List ℝ}
    (hlength : h.length ≤ count * b) (past : List (Buffer ℝ)) :
    lastBlock b h past.reverse i = heard b count past h i +
      lastBlock b (h.drop (sounding b past * b)) (past.drop (sounding b past)).reverse i := by
  induction count generalizing past h with
  | zero =>
    obtain rfl : h = [] := List.length_eq_zero_iff.1 (by omega)
    rw [List.drop_nil, lastBlock_nil_filter, lastBlock_nil_filter, heard, add_zero]
  | succ count ih =>
    cases past with
    | nil => rw [List.drop_nil, List.reverse_nil, lastBlock_nil, lastBlock_nil, heard, silent_nil,
        if_pos rfl, add_zero]
    | cons x past =>
      by_cases hsilent : silent b (x :: past) = true
      · rw [heard, sounding, if_pos hsilent, if_pos hsilent, Nat.zero_mul, List.drop_zero,
          List.drop_zero, zero_add]
      · rw [Nat.succ_mul] at hlength
        have hrest : (h.drop b).length ≤ count * b := by
          rw [List.length_drop]
          omega
        rw [heard, sounding, if_neg hsilent, if_neg hsilent, List.reverse_cons, lastBlock_concat hi,
          ih hrest past, List.drop_drop, List.drop_succ_cons, List.tail_cons, Nat.succ_mul,
          Nat.add_comm b (sounding b past * b), add_assoc]

/-! ## Input -/

variable {fftw : Fftw ℝ} {b : ℕ}

/-- The spectrum of the two newest blocks of `past`. -/
structure Matches (b : ℕ) (node : FftNode ℝ) (past : List (Buffer ℝ)) : Prop where
  zero : node.zero = silent b past
  data : node.zero = false →
    ∀ m < 2 * b, node.data (sortedIndex b m) = HalfComplex.r2hc b (window b past) m

/-- The upcoming partition: its first half is the newest block. -/
structure Upcoming (b : ℕ) (node : FftNode ℝ) (past : List (Buffer ℝ)) : Prop where
  zero : node.zero = hasOnlyZeros b (past.getD 0 fun _ => 0)
  data : node.zero = false → ∀ i < b, node.data i = (past.getD 0 fun _ => 0) i

/-- The state of `input` after the blocks of `past`. -/
structure Input.Holds (b : ℕ) (input : Input ℝ) (past : List (Buffer ℝ)) : Prop where
  blockSize : input.blockSize = b
  spectra : ∀ k node, (input.first :: input.middle)[k]? = some node → Matches b node (past.drop k)
  last : Upcoming b input.last past

theorem fft_apply (hexact : fftw.IsExact) (hb : 0 < b) (h8 : b % 8 = 0) {m : ℕ} (hm : m < 2 * b)
    {data x : Buffer ℝ} (h : ∀ i < 2 * b, data i = x i) :
    fft fftw b data (sortedIndex b m) = HalfComplex.r2hc b x m := by
  rw [fft, sortCoefficients_apply hb h8 hm, hexact.r2hc b data m hb hm, HalfComplex.r2hc_congr h]

theorem silent_iff {past : List (Buffer ℝ)} :
    silent b past = true ↔ (∀ i < b, blockAt past 1 i = 0) ∧ ∀ i < b, blockAt past 0 i = 0 := by
  rw [silent, Bool.and_eq_true, hasOnlyZeros_iff, hasOnlyZeros_iff, and_comm]
  rfl

/-- The recorded spectra are those of the exact transform. -/
theorem Input.Recorded.holds (hexact : fftw.IsExact) (hb : 0 < b) (h8 : b % 8 = 0) {input : Input ℝ}
    {past : List (Buffer ℝ)} (h : input.Recorded fftw b past) : Input.Holds b input past where
  blockSize := h.blockSize
  spectra k node hk := by
    obtain ⟨hzero, hdata⟩ := h.spectra k node hk
    constructor
    · rw [Bool.eq_iff_iff, hzero, silent_iff]
      simp [blockAt]
    · intro hsound m hm
      rw [hdata hsound (sortedIndex b m) (sortedIndex_lt hb h8 hm)]
      refine fft_apply hexact hb h8 hm fun i _ => ?_
      simp [doubleBlock, window, blockAt]
  last := ⟨by rw [Bool.eq_iff_iff, h.last.zero, hasOnlyZeros_iff]; rfl, h.last.data⟩

theorem Input.new_cases {partitions : ℕ} {input : Input ℝ} (h : Input.new b partitions = some input) :
    input.blockSize = b ∧ b % 8 = 0 ∧ input.middle.length + 1 = partitions ∧
      ∀ node ∈ input.spectra, node.zero = true := by
  unfold Input.new at h
  split at h
  · cases h
  split at h
  · cases h
  · rename_i h8 hpartitions
    cases h
    refine ⟨rfl, by omega, by simp; omega, fun node hnode => ?_⟩
    have hnew : node = .new ∨ node ∈ List.replicate (partitions - 1) .new ∨ node = .new := by
      simpa [spectra] using hnode
    rcases hnew with rfl | hmiddle | rfl
    · rfl
    · rw [(List.mem_replicate.1 hmiddle).2]
      rfl
    · rfl

/-- **The state after the blocks `xs`.** -/
theorem Input.addBlocks_hold (hexact : fftw.IsExact) (hb : 0 < b) {partitions : ℕ} {input : Input ℝ}
    (h : Input.new b partitions = some input) (xs : List (Buffer ℝ)) :
    Input.Holds b (xs.foldl (Input.addBlock fftw) input) xs.reverse ∧ b % 8 = 0 ∧
      (xs.foldl (Input.addBlock fftw) input).partitions = partitions := by
  obtain ⟨rfl, h8, rfl, hzero⟩ := new_cases h
  obtain ⟨hrun, hlength⟩ := (recorded_nil hzero).addBlocks (hexact.local hb) h8 xs
  rw [List.append_nil] at hrun
  exact ⟨hrun.holds hexact hb h8, h8, by simp [Input.partitions, Input.spectra, hlength]⟩

/-! ## Filters -/

theorem preparePartition_snd (coefficients : List ℝ) (partition : FftNode ℝ) :
    (preparePartition fftw b coefficients partition).2 = coefficients.drop b := by
  have hdrop : coefficients.drop (min b coefficients.length) = coefficients.drop b := by
    rcases Nat.le_total b coefficients.length with hle | hle
    · rw [min_eq_left hle]
    · rw [min_eq_right hle, List.drop_length, List.drop_eq_nil_of_le hle]
  simp only [preparePartition]
  split
  · exact hdrop
  · exact hdrop

/-- The spectrum of a partition of a filter. -/
theorem preparePartition_spectrum (hexact : fftw.IsExact) (hb : 0 < b) (h8 : b % 8 = 0)
    {coefficients : List ℝ} (h : coefficients ≠ []) (partition : FftNode ℝ) :
    (preparePartition fftw b coefficients partition).1.zero = false ∧
      ∀ m < 2 * b, (preparePartition fftw b coefficients partition).1.data (sortedIndex b m) =
        HalfComplex.r2hc b (fun i => if i < b then coefficients.getD i 0 else 0) m := by
  have hpos := List.length_pos_iff.2 h
  have hchunk : ¬ min b coefficients.length = 0 := by omega
  simp only [preparePartition, if_neg hchunk]
  refine ⟨trivial, fun m hm => fft_apply hexact hb h8 hm fun i _ => ?_⟩
  by_cases hi : i < coefficients.length
  · simp only [lt_min_iff, hi, and_true]
  · rw [if_neg (by omega), List.getD_eq_default _ _ (by omega), ite_self]

theorem prepareFilter_nil (partitions : ℕ) :
    prepareFilter fftw b [] (List.replicate partitions .new) = List.replicate partitions .new := by
  induction partitions with
  | zero => rfl
  | succ partitions ih =>
    rw [List.replicate_succ, prepareFilter, preparePartition_snd, List.drop_nil, ih]
    simp [preparePartition, FftNode.new]

/-- A filter that leaves no coefficients out, with too few or too many partitions. -/
theorem setFilter_prepareFilter {input : Input ℝ} {coefficients : List ℝ} {n : ℕ}
    (h : n < input.partitions → coefficients.length ≤ n * b) :
    setFilter input (prepareFilter fftw b coefficients (List.replicate n .new)) =
      prepareFilter fftw b coefficients (List.replicate input.partitions .new) := by
  have hlength : ∀ (n : ℕ) (coefficients : List ℝ),
      (prepareFilter fftw b coefficients (List.replicate n .new)).length = n := by
    intro n
    induction n with
    | zero => exact fun _ => rfl
    | succ n ih => exact fun coefficients => congrArg (· + 1) (ih _)
  unfold setFilter
  rw [hlength]
  generalize input.partitions = partitions at h
  induction n generalizing partitions coefficients with
  | zero =>
    rcases Nat.eq_zero_or_pos partitions with rfl | hpos
    · rfl
    · have hempty := h hpos
      rw [Nat.zero_mul] at hempty
      rw [List.length_eq_zero_iff.1 (Nat.le_zero.1 hempty), List.replicate_zero, prepareFilter,
        List.take_nil, List.nil_append, Nat.sub_zero, prepareFilter_nil]
  | succ n ih =>
    cases partitions with
    | zero => rw [Nat.zero_sub, List.take_zero, List.replicate_zero, List.nil_append, prepareFilter]
    | succ partitions =>
      rw [List.replicate_succ, List.replicate_succ, prepareFilter, prepareFilter,
        preparePartition_snd, List.take_succ_cons, List.cons_append, Nat.add_sub_add_right, ih]
      intro hlt
      have := h (by omega)
      rw [Nat.succ_mul] at this
      rw [List.length_drop]
      omega

theorem minPartitions_mul (hb : 0 < b) (filterSize : ℕ) :
    filterSize ≤ minPartitions b filterSize * b := by
  have hdiv := Nat.div_add_mod (filterSize + b - 1) b
  have hmod := Nat.mod_lt (filterSize + b - 1) hb
  rw [minPartitions, Nat.mul_comm]
  omega

/-- The filter of a `StaticOutput` does not depend on the partitions of the `Filter` given to it, if
these hold all coefficients. -/
theorem setFilter_filter (hb : 0 < b) {input : Input ℝ} {coefficients : List ℝ} {partitions : ℕ}
    (h : partitions = 0 ∨ coefficients.length ≤ partitions * b) :
    setFilter input (filter fftw b coefficients partitions) =
      prepareFilter fftw b coefficients (List.replicate input.partitions .new) := by
  refine setFilter_prepareFilter fun _ => ?_
  split
  · rename_i hne
    exact h.resolve_left hne
  · exact minPartitions_mul hb coefficients.length

/-! ## Output -/

theorem multiplySpectra_silent {node : FftNode ℝ} (h : node.zero = true) (nodes : List (FftNode ℝ))
    (filters : List (FftNode ℝ)) (output : FftNode ℝ) :
    multiplySpectra (node :: nodes) filters output = output := by
  induction filters with
  | nil => rfl
  | cons filter filters ih => rw [multiplySpectra, h, Bool.true_or, if_pos rfl, ih]

theorem multiplySpectra_empty {filters : List (FftNode ℝ)} (h : ∀ f ∈ filters, f.zero = true)
    (nodes : List (FftNode ℝ)) (output : FftNode ℝ) :
    multiplySpectra nodes filters output = output := by
  induction filters with
  | nil => cases nodes <;> rfl
  | cons filter filters ih =>
    cases nodes with
    | nil => rfl
    | cons node nodes =>
      rw [multiplySpectra, h filter List.mem_cons_self, Bool.or_true, if_pos rfl]
      exact ih fun f hf => h f (List.mem_cons_of_mem filter hf)

/-- One product adds one partition of the convolution. -/
theorem hc2r_multiplyPartition (hb : 0 < b) (h8 : b % 8 = 0) {past : List (Buffer ℝ)} {rest : List ℝ}
    {signal filter : Buffer ℝ}
    (hsignal : ∀ m < 2 * b, signal (sortedIndex b m) = HalfComplex.r2hc b (window b past) m)
    (hfilter : ∀ m < 2 * b, filter (sortedIndex b m) =
      HalfComplex.r2hc b (fun i => if i < b then rest.getD i 0 else 0) m)
    (output : Buffer ℝ) {i : ℕ} (hi : i < b) :
    HalfComplex.hc2r b (fun m => multiplyPartition output signal filter (sortedIndex b m)) (b + i) =
      HalfComplex.hc2r b (fun m => output (sortedIndex b m)) (b + i) +
        2 * b * ∑ j ∈ range b, rest.getD j 0 * window b past (b + i - j) := by
  rw [HalfComplex.hc2r_congr hb fun m hm => multiplyPartition_apply hb h8 hm hsignal hfilter output,
    HalfComplex.hc2r_add, HalfComplex.hc2r_mul_half hb _ (fun m hm => if_neg (by omega)) hi]
  congr 2
  refine sum_congr rfl fun j hj => ?_
  rw [if_pos (mem_range.1 hj)]

/-- In the sample `i` of the second half, `result` is `output` and `v` more. -/
structure Adds (b i : ℕ) (result output : FftNode ℝ) (v : ℝ) : Prop where
  keep : result.zero = true → result = output
  sum : HalfComplex.hc2r b (fun m => result.data (sortedIndex b m)) (b + i) =
    HalfComplex.hc2r b (fun m => output.data (sortedIndex b m)) (b + i) + 2 * b * v

theorem Adds.of_eq {i : ℕ} {result output : FftNode ℝ} {v : ℝ} (h : result = output) (hv : v = 0) :
    Adds b i result output v := by
  rw [h, hv]
  exact ⟨fun _ => rfl, by rw [mul_zero, add_zero]⟩

/-- **The loop over the partitions** adds what is heard. -/
theorem multiplySpectra_adds (hexact : fftw.IsExact) (hb : 0 < b) (h8 : b % 8 = 0) {count i : ℕ}
    (hi : i < b) (last : FftNode ℝ) {nodes : List (FftNode ℝ)} {past : List (Buffer ℝ)}
    (hnodes : ∀ k node, nodes[k]? = some node → Matches b node (past.drop k))
    (hcount : count ≤ nodes.length) (rest : List ℝ) (output : FftNode ℝ) :
    Adds b i (multiplySpectra (nodes ++ [last])
      (prepareFilter fftw b rest (List.replicate count .new)) output) output
      (heard b count past rest i) := by
  induction count generalizing nodes past rest output with
  | zero => exact .of_eq (multiplySpectra_empty (fun f hf => by cases hf) _ output) rfl
  | succ count ih =>
    cases nodes with
    | nil => cases hcount
    | cons node nodes =>
      have hnode := hnodes 0 node rfl
      rw [List.drop_zero] at hnode
      by_cases hsilent : silent b past = true
      · exact .of_eq (multiplySpectra_silent (hnode.zero.trans hsilent) _ _ output)
          (by rw [heard, if_pos hsilent])
      by_cases hrest : rest = []
      · subst hrest
        refine .of_eq (multiplySpectra_empty (fun f hf => ?_) _ output) (heard_nil b _ past i)
        rw [prepareFilter_nil] at hf
        rw [(List.mem_replicate.1 hf).2]
        rfl
      · have hzero : node.zero = false := by simpa [hsilent] using hnode.zero
        obtain ⟨hfilter, hspectrum⟩ := preparePartition_spectrum hexact hb h8 hrest .new
        have hrun := @ih nodes past.tail
          (fun k n hn => by simpa using hnodes (k + 1) n hn) (Nat.le_of_succ_le_succ hcount)
          (rest.drop b) ⟨multiplyPartition output.data node.data
            (preparePartition fftw b rest .new).1.data, false⟩
        rw [List.replicate_succ, prepareFilter, List.cons_append, multiplySpectra, hzero, hfilter,
          Bool.or_false, if_neg Bool.false_ne_true, preparePartition_snd]
        refine ⟨fun h => ?_, ?_⟩
        · rw [hrun.keep h] at h
          cases h
        · rw [hrun.sum, hc2r_multiplyPartition hb h8 (hnode.data hzero) hspectrum output.data hi,
            heard, if_neg hsilent, mul_add, add_assoc]

/-- **The output of `convolve`.** -/
theorem convolve_eq (hexact : fftw.IsExact) (hb : 0 < b) (h8 : b % 8 = 0) {input : Input ℝ}
    {past : List (Buffer ℝ)} (hinput : Input.Holds b input past) (coefficients : List ℝ) (weight : ℝ)
    {i : ℕ} (hi : i < b) :
    convolve fftw input (prepareFilter fftw b coefficients (List.replicate input.partitions .new))
        weight i = weight * heard b input.partitions past coefficients i := by
  have hpartitions : input.partitions = (input.first :: input.middle).length := by
    simp [Input.partitions, Input.spectra]
  obtain ⟨hkeep, hsum⟩ := multiplySpectra_adds hexact hb h8 hi input.last
    hinput.spectra hpartitions.le coefficients .new
  have hnew :
      HalfComplex.hc2r b (fun m => (FftNode.new (α := ℝ)).data (sortedIndex b m)) (b + i) = 0 :=
    HalfComplex.hc2r_zero b (b + i)
  have hne : (b : ℝ) ≠ 0 := Nat.cast_ne_zero.2 hb.ne'
  rw [hnew, zero_add] at hsum
  simp only [convolve, hinput.blockSize, Input.spectra]
  generalize multiplySpectra (input.first :: input.middle ++ [input.last]) (prepareFilter fftw b
    coefficients (List.replicate input.partitions .new)) .new = result at hkeep hsum ⊢
  split
  · rename_i hzero
    rw [hkeep hzero, hnew] at hsum
    have hheard : heard b input.partitions past coefficients i = 0 := by
      rcases mul_eq_zero.1 hsum.symm with h | h
      · exact absurd h (by positivity)
      · exact h
    rw [hkeep hzero, hheard, mul_zero]
    rfl
  · beta_reduce
    rw [hexact.hc2r b _ (b + i) hb (by omega), HalfComplex.hc2r_congr hb fun m hm =>
      unsortCoefficients_apply hb h8 hm result.data, hsum]
    push_cast
    field_simp

/-- **Partitioned convolution.** The output is the newest block of the convolution if and only if
the weight is zero or the blocks up to the newest two consecutive blocks that are all zero do not
contribute to it. -/
theorem convolve_eq_convolution_iff (hexact : fftw.IsExact) (hb : 0 < b) {partitions : ℕ}
    {input : Input ℝ} (hinput : Input.new b partitions = some input) (xs : List (Buffer ℝ))
    {h : List ℝ} (hlength : h.length ≤ partitions * b) {filterPartitions : ℕ}
    (hfilter : filterPartitions = 0 ∨ h.length ≤ filterPartitions * b) (weight : ℝ) :
    (∀ i < b, convolve fftw (xs.foldl (Input.addBlock fftw) input)
        (setFilter (xs.foldl (Input.addBlock fftw) input) (filter fftw b h filterPartitions)) weight i =
      weight * lastBlock b h xs i) ↔
    (weight = 0 ∨ ∀ i < b, lastBlock b (h.drop (sounding b xs.reverse * b))
      (xs.take (xs.length - sounding b xs.reverse)) i = 0) := by
  obtain ⟨hrun, h8, hpartitions⟩ := Input.addBlocks_hold hexact hb hinput xs
  have hblock : ∀ i < b, (convolve fftw (xs.foldl (Input.addBlock fftw) input)
        (setFilter (xs.foldl (Input.addBlock fftw) input) (filter fftw b h filterPartitions)) weight i =
      weight * lastBlock b h xs i ↔ weight = 0 ∨ lastBlock b (h.drop (sounding b xs.reverse * b))
        (xs.take (xs.length - sounding b xs.reverse)) i = 0) := by
    intro i hi
    have heard := lastBlock_eq_heard hi hlength xs.reverse
    rw [List.reverse_reverse, List.reverse_drop, List.reverse_reverse, List.length_reverse] at heard
    rw [setFilter_filter hb hfilter, convolve_eq hexact hb h8 hrun h weight hi, hpartitions, heard,
      mul_add, eq_comm, add_eq_left, mul_eq_zero]
  constructor
  · intro hall
    by_cases hw : weight = 0
    · exact .inl hw
    · exact .inr fun i hi => ((hblock i hi).1 (hall i hi)).resolve_left hw
  · intro hall i hi
    exact (hblock i hi).2 (hall.imp_right fun h => h i hi)

/-- The unit impulse at the start of a block. -/
def impulse : Buffer ℝ := fun i => if i = 0 then 1 else 0

/-- An impulse, a block of silence and another impulse. -/
def impulses : List (Buffer ℝ) := [impulse, fun _ => 0, impulse]

theorem hasOnlyZeros_impulse : hasOnlyZeros 8 impulse = false := by
  rw [hasOnlyZeros, List.all_eq_false]
  exact ⟨0, by simp, by simp [impulse]⟩

theorem sounding_impulses : sounding 8 impulses.reverse = 3 := by
  simp [impulses, sounding, silent, hasOnlyZeros_impulse]

theorem convolve_eq_convolution_iff_impulses : ∃ input, Input.new 8 3 = some input ∧
    (∀ i < 8, convolve .exact (impulses.foldl (Input.addBlock .exact) input)
        (setFilter (impulses.foldl (Input.addBlock .exact) input)
          (filter .exact 8 (List.replicate 16 0 ++ [1]) 3)) (1 / 2) i =
      1 / 2 * lastBlock 8 (List.replicate 16 0 ++ [1]) impulses i) ∧
    lastBlock 8 (List.replicate 16 0 ++ [1]) impulses 0 = 1 := by
  obtain ⟨input, hinput⟩ : ∃ input : Input ℝ, Input.new 8 3 = some input := ⟨_, rfl⟩
  have hlength : (List.replicate 16 (0 : ℝ) ++ [1]).length ≤ 3 * 8 := by simp
  have hiff := convolve_eq_convolution_iff Fftw.exact_isExact (by decide) hinput impulses
    hlength (.inr hlength) (1 / 2)
  refine ⟨input, hinput, hiff.2 (.inr fun i _ => ?_), ?_⟩
  · rw [sounding_impulses, List.drop_eq_nil_of_le (by simp)]
    simp [lastBlock, linearConvolution]
  · simp [lastBlock, linearConvolution, stream, sum_range_succ, List.replicate, impulses, impulse]

/-- A filter that delays by two blocks loses an impulse that is followed by silence. -/
theorem delayed_impulse_lost : ∃ input, Input.new 8 3 = some input ∧
    ¬ ∀ i < 8, convolve .exact
        ([impulse, fun _ => 0, fun _ => 0].foldl (Input.addBlock .exact) input)
        (staticOutput .exact ([impulse, fun _ => 0, fun _ => 0].foldl (Input.addBlock .exact) input)
          (List.replicate 16 0 ++ [1])) 1 i =
      1 * lastBlock 8 (List.replicate 16 0 ++ [1]) [impulse, fun _ => 0, fun _ => 0] i := by
  obtain ⟨input, hinput⟩ : ∃ input : Input ℝ, Input.new 8 3 = some input := ⟨_, rfl⟩
  refine ⟨input, hinput, fun hall => ?_⟩
  have hfirst := hall 0 (by decide)
  obtain ⟨hrun, -, hpartitions⟩ := Input.addBlocks_hold Fftw.exact_isExact (by decide) hinput
    [impulse, fun _ => 0, fun _ => 0]
  generalize List.foldl (Input.addBlock .exact) input [impulse, fun _ => 0, fun _ => 0] = state
    at hfirst hrun hpartitions
  have hsilent : silent 8 [fun _ => 0, fun _ => 0, impulse] = true := by
    simp [silent, hasOnlyZeros]
  have hblock : lastBlock 8 (List.replicate 16 0 ++ [1]) [impulse, fun _ => 0, fun _ => 0] 0 = 1 := by
    simp [lastBlock, linearConvolution, stream, sum_range_succ, List.replicate, impulse]
  rw [staticOutput, hrun.blockSize, setFilter_filter (by decide) (.inr (by simp [hpartitions])),
    convolve_eq Fftw.exact_isExact (by decide) (by decide) hrun _ _ (by decide), hblock, hpartitions]
    at hfirst
  simp [heard, hsilent] at hfirst

end Apf.Conv
