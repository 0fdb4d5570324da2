import Ssr.Apf.Proof.Coefficients

/-!
# The input stage of the convolution

What `add_block` leaves in the list of spectra after a sequence of blocks. `Prepared` is what it
finds in the last node: the previous block, ready for the next call. `SpectrumOf` is what is in the
other nodes: the spectrum of two successive blocks, or the flag if both are all zero. The data of a
node with the flag are stale, and so is the second half of the last node.
-/

set_option autoImplicit false

namespace Apf.Conv

variable {α : Type} [Zero α]

/-- A transform of `n` values does not look at anything else. -/
def Fftw.Local (fftw : Fftw α) (n : ℕ) : Prop :=
  ∀ x y : Buffer α, (∀ i < n, x i = y i) → ∀ m < n, fftw.r2hc n x m = fftw.r2hc n y m

/-- The block that was added `k` blocks before the newest one, which is the first of `past`; before
the first call there was silence. -/
def blockAt (past : List (Buffer α)) (k : ℕ) : Buffer α := past.getD k fun _ => 0

/-- Two blocks, one after the other. -/
def doubleBlock (b : ℕ) (older newer : Buffer α) : Buffer α :=
  fun i => if i < b then older i else newer (i - b)

/-- The node holds the spectrum of two successive blocks. -/
structure SpectrumOf (fftw : Fftw α) (b : ℕ) (node : FftNode α) (older newer : Buffer α) : Prop where
  zero : node.zero = true ↔ (∀ i < b, older i = 0) ∧ ∀ i < b, newer i = 0
  data : node.zero = false → ∀ m < 2 * b, node.data m = fft fftw b (doubleBlock b older newer) m

/-- The node holds a block in its first half. -/
structure Prepared (b : ℕ) (node : FftNode α) (x : Buffer α) : Prop where
  zero : node.zero = true ↔ ∀ i < b, x i = 0
  data : node.zero = false → ∀ i < b, node.data i = x i

/-- The state of `input` after the blocks of `past`. -/
structure Input.Recorded (fftw : Fftw α) (b : ℕ) (input : Input α) (past : List (Buffer α)) :
    Prop where
  blockSize : input.blockSize = b
  spectra : ∀ k node, (input.first :: input.middle)[k]? = some node →
    SpectrumOf fftw b node (blockAt past (k + 1)) (blockAt past k)
  last : Prepared b input.last (blockAt past 0)

variable {fftw : Fftw α} {b : ℕ} {input : Input α} {past : List (Buffer α)}

/-! ## Transforms -/

theorem sortCoefficients_congr (h8 : b % 8 = 0) {x y : Buffer α} (h : ∀ m < 2 * b, x m = y m) {n : ℕ}
    (hn : n < 2 * b) : sortCoefficients b x n = sortCoefficients b y n := by
  have hb : 0 < b := by omega
  obtain ⟨m, hm⟩ := (sortedPerm hb h8).surjective ⟨n, hn⟩
  obtain rfl : sortedIndex b m = n := congrArg Fin.val hm
  rw [sortCoefficients_apply hb h8 m.2, sortCoefficients_apply hb h8 m.2, h m m.2]

theorem fft_congr (hlocal : fftw.Local (2 * b)) (h8 : b % 8 = 0) {x y : Buffer α}
    (h : ∀ i < 2 * b, x i = y i) {m : ℕ} (hm : m < 2 * b) : fft fftw b x m = fft fftw b y m :=
  sortCoefficients_congr h8 (hlocal x y h) hm

/-- The FFTW computes the half-complex transforms exactly. -/
structure Fftw.IsExact (fftw : Fftw ℝ) : Prop where
  r2hc : ∀ b x k, 0 < b → k < 2 * b → fftw.r2hc (2 * b) x k = Lib.HalfComplex.r2hc b x k
  hc2r : ∀ b X j, 0 < b → j < 2 * b → fftw.hc2r (2 * b) X j = Lib.HalfComplex.hc2r b X j

/-- The transforms by their definition. -/
noncomputable def Fftw.exact : Fftw ℝ where
  r2hc n := Lib.HalfComplex.r2hc (n / 2)
  hc2r n := Lib.HalfComplex.hc2r (n / 2)

theorem Fftw.exact_isExact : Fftw.exact.IsExact where
  r2hc b x k _ _ := by simp [Fftw.exact]
  hc2r b X j _ _ := by simp [Fftw.exact]

theorem Fftw.IsExact.local {fftw : Fftw ℝ} (hexact : fftw.IsExact) {b : ℕ} (hb : 0 < b) :
    fftw.Local (2 * b) := by
  intro x y h m hm
  rw [hexact.r2hc b x m hb hm, hexact.r2hc b y m hb hm, Lib.HalfComplex.r2hc_congr h]

/-! ## One block -/

theorem Input.recorded_nil (hzero : ∀ node ∈ input.spectra, node.zero = true) :
    input.Recorded fftw input.blockSize [] := by
  have hnode : ∀ node, node ∈ input.first :: input.middle ∨ node = input.last →
      node.zero = true := by
    intro node hnode
    refine hzero node ?_
    simpa [spectra, or_assoc] using hnode
  refine ⟨rfl, fun k node hk => ?_, ?_⟩
  · have htrue := hnode node (.inl (List.mem_of_getElem? hk))
    exact ⟨⟨fun _ => ⟨fun _ _ => rfl, fun _ _ => rfl⟩, fun _ => htrue⟩,
      fun h => by rw [htrue] at h; cases h⟩
  · have htrue := hnode input.last (.inr rfl)
    exact ⟨⟨fun _ _ _ => rfl, fun _ => htrue⟩, fun h => by rw [htrue] at h; cases h⟩

variable [DecidableEq α]

theorem hasOnlyZeros_iff {n : ℕ} {x : Buffer α} : hasOnlyZeros n x = true ↔ ∀ i < n, x i = 0 := by
  simp [hasOnlyZeros]

/-- The two partitions that `add_block` fills, before the transform. -/
theorem Input.addBlock_eq (fftw : Fftw α) {older : Buffer α}
    (hlast : Prepared input.blockSize input.last older) (x : Buffer α) :
    ∃ current next : FftNode α,
      input.addBlock fftw x =
        { blockSize := input.blockSize
          first := if current.zero then current
            else { current with data := fft fftw input.blockSize current.data }
          middle := (input.first :: input.middle).dropLast
          last := next } ∧
      (current.zero = true ↔
        (∀ i < input.blockSize, older i = 0) ∧ ∀ i < input.blockSize, x i = 0) ∧
      (current.zero = false → ∀ i < 2 * input.blockSize,
        current.data i = doubleBlock input.blockSize older x i) ∧
      Prepared input.blockSize next x := by
  by_cases hx : hasOnlyZeros input.blockSize x = true
  · have hsilent := hasOnlyZeros_iff.1 hx
    refine ⟨if input.last.zero then input.last else { input.last with
      data := fun i => if i < input.blockSize then input.last.data i else 0 }, { (input.first ::
        input.middle).getLast (List.cons_ne_nil _ _) with zero := true }, ?_, ?_, ?_,
        ⟨fun _ => hsilent, fun _ => rfl⟩, fun h => by cases h⟩
    · simp only [Input.addBlock, if_pos hx]
    · rw [and_iff_left hsilent, ← hlast.zero]
      split
      · rfl
      · rfl
    · intro hsound i hi
      split at hsound
      · rename_i hcurrent
        rw [hcurrent] at hsound
        cases hsound
      · rename_i hcurrent
        rw [if_neg hcurrent, doubleBlock]
        dsimp only
        split
        · rename_i hfirst
          exact hlast.data hsound i hfirst
        · exact (hsilent (i - input.blockSize) (by omega)).symm
  · refine ⟨{
      data := fun i => if i < input.blockSize then (if input.last.zero then 0 else input.last.data i)
        else x (i - input.blockSize)
      zero := false }, {
        data := fun i => if i < input.blockSize then x i else
          ((input.first :: input.middle).getLast (List.cons_ne_nil _ _)).data i
        zero := false }, ?_, ?_, ?_, ?_, fun _ i hi => if_pos hi⟩
    · simp only [Input.addBlock, if_neg hx]
    · exact ⟨fun h => (by cases h), fun h => absurd (hasOnlyZeros_iff.2 h.2) hx⟩
    · intro _ i hi
      rw [doubleBlock]
      dsimp only
      split
      · rename_i hfirst
        split
        · rename_i hcurrent
          exact (hlast.zero.1 hcurrent i hfirst).symm
        · rename_i hcurrent
          exact hlast.data (by simpa using hcurrent) i hfirst
      · rfl
    · exact ⟨fun h => (by cases h), fun h => absurd (hasOnlyZeros_iff.2 h) hx⟩

/-- **One block**: the spectra move on and the new first one is that of the two newest blocks. -/
theorem Input.Recorded.addBlock (hlocal : fftw.Local (2 * b)) (h8 : b % 8 = 0)
    (h : input.Recorded fftw b past) (x : Buffer α) :
    (input.addBlock fftw x).Recorded fftw b (x :: past) ∧
      (input.addBlock fftw x).middle.length = input.middle.length := by
  obtain ⟨rfl, hspectra, hlast⟩ := h
  obtain ⟨current, next, heq, hzero, hdata, hnext⟩ := Input.addBlock_eq fftw hlast x
  rw [heq]
  refine ⟨⟨rfl, fun k node hk => ?_, hnext⟩, by simp⟩
  cases k with
  | zero =>
    obtain rfl := Option.some.inj hk
    split
    · rename_i hcurrent
      exact ⟨hzero, fun h => by rw [hcurrent] at h; cases h⟩
    · exact ⟨hzero, fun hsound m hm => fft_congr hlocal h8 (hdata hsound) hm⟩
  | succ k =>
    rw [List.getElem?_cons_succ, List.getElem?_dropLast] at hk
    split at hk
    · exact hspectra k node hk
    · cases hk

/-- **Many blocks.** -/
theorem Input.Recorded.addBlocks (hlocal : fftw.Local (2 * b)) (h8 : b % 8 = 0)
    (xs : List (Buffer α)) (h : input.Recorded fftw b past) :
    (xs.foldl (Input.addBlock fftw) input).Recorded fftw b (xs.reverse ++ past) ∧
      (xs.foldl (Input.addBlock fftw) input).middle.length = input.middle.length := by
  induction xs generalizing input past with
  | nil => exact ⟨h, rfl⟩
  | cons x xs ih =>
    obtain ⟨hstep, hlength⟩ := h.addBlock hlocal h8 x
    obtain ⟨hrun, hrest⟩ := ih hstep
    rw [List.foldl_cons, List.reverse_cons, List.append_assoc]
    exact ⟨hrun, hrest.trans hlength⟩

/-- **The history of the input**: after any number of blocks, whatever the nodes held before the
first one, the node `k` belongs to the blocks `k + 1` and `k` before the newest one, and the last
node is prepared for the next call. -/
theorem Input.addBlock_history (hlocal : fftw.Local (2 * input.blockSize))
    (h8 : input.blockSize % 8 = 0) (hzero : ∀ node ∈ input.spectra, node.zero = true)
    (xs : List (Buffer α)) :
    let after := xs.foldl (Input.addBlock fftw) input
    after.spectra.length = input.partitions + 1 ∧
      (∀ k < input.partitions, ∃ node, after.spectra[k]? = some node ∧
        SpectrumOf fftw input.blockSize node (blockAt xs.reverse (k + 1)) (blockAt xs.reverse k)) ∧
      ∃ node, after.spectra.getLast? = some node ∧
        Prepared input.blockSize node (blockAt xs.reverse 0) := by
  intro after
  obtain ⟨hrun, hlength⟩ := (recorded_nil hzero).addBlocks hlocal h8 xs
  rw [List.append_nil] at hrun
  have hpartitions : input.partitions = (after.first :: after.middle).length := by
    rw [List.length_cons, hlength]
    simp [partitions, spectra]
  refine ⟨?_, fun k hk => ?_, after.last, ?_, hrun.last⟩
  · rw [hpartitions, spectra, List.length_append, List.length_singleton]
  · rw [hpartitions] at hk
    refine ⟨_, ?_, hrun.spectra k _ (List.getElem?_eq_getElem hk)⟩
    rw [spectra, List.getElem?_append_left hk, List.getElem?_eq_getElem hk]
  · rw [spectra, List.getLast?_concat]

/-- An impulse and silence, after stale data. -/
theorem Input.addBlock_history_two :
    let impulse : Buffer ℝ := fun i => if i = 0 then 1 else 0
    let xs : List (Buffer ℝ) := [impulse, fun _ => 0]
    let after := xs.foldl (Input.addBlock .exact)
      { blockSize := 8, first := ⟨fun _ => 3, true⟩, middle := [⟨fun _ => 5, true⟩],
        last := ⟨fun _ => 7, true⟩ }
    after.spectra.length = 3 ∧
      (∀ k < 2, ∃ node, after.spectra[k]? = some node ∧
        SpectrumOf .exact 8 node (blockAt xs.reverse (k + 1)) (blockAt xs.reverse k)) ∧
      ∃ node, after.spectra.getLast? = some node ∧ Prepared 8 node (blockAt xs.reverse 0) :=
  Input.addBlock_history (Fftw.exact_isExact.local (b := 8) (by decide)) rfl
    (by simp [Input.spectra]) _

end Apf.Conv
