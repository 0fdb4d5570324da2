import Ssr.Lib.HalfComplex
import Ssr.Renderer.NfcHoaProcess
import Ssr.Renderer.Proof.NfcHoaMode
import Ssr.Renderer.Proof.NfcHoaRenderer

/-!
# The output of the NFC-HOA renderer

The mode accumulators write every channel of the mode matrix exactly once: those up to the order from
the first gain of a mode, the others from the second gain (`modeMatrix_channels`). The channels are
transformed with `FFTW_R2HC`, so a loudspeaker plays of each source the channels times the cosines or
the negative sines of its place around the array (`loudspeaker_signals`).
-/

set_option autoImplicit false

namespace Ssr

/-! ## The channels of the accumulators -/

/-- The accumulator with this number. -/
def modeAccumulator (L i : ℕ) : ModeAccumulator :=
  if i = 0 ∨ (i = L / 2 ∧ L % 2 = 0) then ⟨i, none⟩ else ⟨i, some (L - i)⟩

theorem zipIdx_modeAccumulators (L : ℕ) :
    (modeAccumulators L).zipIdx = (List.range (L / 2 + 1)).map fun i => (modeAccumulator L i, i) := by
  refine List.ext_getElem (by simp [modeAccumulators]) fun i h h' => ?_
  simp [modeAccumulators, modeAccumulator]

section
open Apf CombineChannels
variable {T : Type} {n L i : ℕ} (samples : Samples n (T × T)) (modeMatrix : ℕ → Samples n T)

theorem write_first (hi : i ≤ L / 2) :
    (modeAccumulator L i).write samples modeMatrix i = fun j => (samples j).1 := by
  unfold modeAccumulator ModeAccumulator.write
  split
  · exact Function.update_self ..
  · rename_i h
    exact (Function.update_of_ne (by omega) ..).trans (Function.update_self ..)

theorem write_second (hi : 0 < i) (hL : L / 2 < L - i) :
    (modeAccumulator L i).write samples modeMatrix (L - i) = fun j => (samples j).2 := by
  unfold modeAccumulator ModeAccumulator.write
  split
  · rename_i h
    omega
  · exact Function.update_self ..

/-- The other channels stay as they are. -/
theorem write_other {c : ℕ} (hfirst : c ≠ i) (hsecond : c ≠ L - i) :
    (modeAccumulator L i).write samples modeMatrix c = modeMatrix c := by
  unfold modeAccumulator ModeAccumulator.write
  split
  · exact Function.update_of_ne hfirst ..
  · exact (Function.update_of_ne hsecond ..).trans (Function.update_of_ne hfirst ..)

end

namespace NfcHoaRenderer

open Apf CombineChannels Lib

/-! ## The mode matrix -/

variable {T : Type} [Scalar T] [LinearOrder T] [CMath T] {n L : ℕ}

/-- The mode matrix after the block `t`, for `L` loudspeakers. -/
def modeMatrixAt (L : ℕ) (table : List (T × T)) (arrayRadius : T) (modes : ℕ → Mode T n)
    (sources : List (History T n)) (modeMatrix : ℕ → Samples n T) (t : ℕ) :
    Option (ℕ → Samples n T) := do
  let accumulators ← (modeAccumulators L).zipIdx.mapM fun (accumulator, i) =>
    (itemsAt table arrayRadius (modes i) sources t).map fun items => (accumulator, items)
  processAccumulators accumulators modeMatrix

/-- What a source plays into a channel in the block `t`. -/
def channelSignal (L : ℕ) (table : List (T × T)) (arrayRadius : T) (modes : ℕ → Mode T n)
    (h : History T n) (c t : ℕ) (i : Fin n) : T :=
  if c ≤ L / 2 then
    sampleOf h table arrayRadius (modes c) t i *
      rampSignal n (fun t => (gainsAt h (modes c) t).1) (t * n + i)
  else
    sampleOf h table arrayRadius (modes (L - c)) t i *
      rampSignal n (fun t => (gainsAt h (modes (L - c)) t).2) (t * n + i)

omit [LinearOrder T] [CMath T] in
/-- The loop over the accumulators: the first `k` of them have written the channels of the modes below
`k`. -/
theorem processAccumulators_channels {items : ℕ → List (Item T n)} {sums : ℕ → Samples n (T × T)}
    (hitems : ∀ m ≤ L / 2, ∀ outputChannels, ∃ r,
      processAccumulator (items m) outputChannels = some r ∧ r.1.buffer = sums m)
    (modeMatrix : ℕ → Samples n T) {k : ℕ} (hk : k ≤ L / 2 + 1) :
    ∃ matrix, processAccumulators ((List.range k).map fun i => (modeAccumulator L i, items i))
        modeMatrix = some matrix ∧
      ∀ c < L, (if c ≤ L / 2 then c else L - c) < k →
        matrix c = fun i => if c ≤ L / 2 then (sums c i).1 else (sums (L - c) i).2 := by
  induction k with
  | zero => exact ⟨modeMatrix, rfl, fun c _ h => absurd h (Nat.not_lt_zero _)⟩
  | succ k ih =>
    obtain ⟨matrix, hmatrix, hchannels⟩ := ih (by omega)
    obtain ⟨r, hr, hbuffer⟩ := hitems k (by omega) ((modeAccumulator L k).outputChannels matrix)
    refine ⟨(modeAccumulator L k).write r.1.buffer matrix, ?_, fun c hc hlt => ?_⟩
    · rw [processAccumulators] at hmatrix ⊢
      rw [List.range_succ, List.map_append, List.foldlM_append, hmatrix, Option.bind_eq_bind,
        Option.bind_some]
      simp only [List.map_cons, List.map_nil, List.foldlM_cons, List.foldlM_nil, hr,
        Option.bind_eq_bind, Option.bind_some]
      rfl
    by_cases hlow : c ≤ L / 2
    · rw [if_pos hlow] at hlt
      obtain rfl | hbelow := Nat.eq_or_lt_of_le (Nat.lt_succ_iff.1 hlt)
      · rw [write_first _ _ hlow, hbuffer]
        simp only [if_pos hlow]
      · rw [write_other _ _ hbelow.ne (by omega)]
        exact hchannels c hc (by rwa [if_pos hlow])
    · rw [if_neg hlow] at hlt
      obtain hsame | hbelow := Nat.eq_or_lt_of_le (Nat.lt_succ_iff.1 hlt)
      · have hc' : c = L - k := by omega
        rw [hc', write_second _ _ (by omega) (by omega), hbuffer, ← hc', hsame]
        simp only [if_neg hlow]
      · rw [write_other _ _ (by omega) (by omega)]
        exact hchannels c hc (by rwa [if_neg hlow])

section
variable [CharZero T] {table : List (T × T)} {modes : ℕ → Mode T n} {maxSize sampleRate : ℕ}
  {radius speedOfSound : T} (hn : 0 < n) (hL : L / 2 < 2 ^ 32)
  (htable : table.length = laplaceCoeffsRows)
  (hnew : ∀ m ≤ L / 2, Mode.new maxSize m sampleRate radius speedOfSound = .ok (modes m))

include hn hL htable hnew in
/-- **Every channel of the mode matrix** is the sum of what the sources play into it. -/
theorem modeMatrix_channels (sources : List (History T n)) (arrayRadius : T)
    (modeMatrix : ℕ → Samples n T) (t : ℕ) :
    ∃ matrix, modeMatrixAt L table arrayRadius modes sources modeMatrix t = some matrix ∧
      ∀ c < L, matrix c = fun i =>
        (sources.map fun h => channelSignal L table arrayRadius modes h c t i).sum := by
  let sums : ℕ → Samples n (T × T) := fun m i => (sources.map fun h =>
    (sampleOf h table arrayRadius (modes m) t i *
        rampSignal n (fun t => (gainsAt h (modes m) t).1) (t * n + i),
      sampleOf h table arrayRadius (modes m) t i *
        rampSignal n (fun t => (gainsAt h (modes m) t).2) (t * n + i))).sum
  have hmodes : ∀ m, ∃ items, m ≤ L / 2 →
      itemsAt table arrayRadius (modes m) sources t = some items ∧
      ∀ outputChannels, ∃ r, processAccumulator items outputChannels = some r ∧
        r.1.buffer = sums m := by
    intro m
    by_cases hm : m ≤ L / 2
    · obtain ⟨items, h⟩ := processAccumulator_items hn (hm.trans_lt hL) htable (hnew m hm) sources
        arrayRadius t
      exact ⟨items, fun _ => h⟩
    · exact ⟨[], fun h => absurd h hm⟩
  choose items hitems using hmodes
  have hall : ((List.range (L / 2 + 1)).map fun i => (modeAccumulator L i, i)).mapM
      (fun p => (itemsAt table arrayRadius (modes p.2) sources t).map fun items => (p.1, items)) =
        some (((List.range (L / 2 + 1)).map fun i => (modeAccumulator L i, i)).map
          fun p => (p.1, items p.2)) := by
    refine mapM_eq fun p hp => ?_
    obtain ⟨i, hi, rfl⟩ := List.mem_map.1 hp
    rw [(hitems i (Nat.lt_succ_iff.1 (List.mem_range.1 hi))).1]
    rfl
  obtain ⟨matrix, hmatrix, hchannels⟩ :=
    processAccumulators_channels (fun m hm => (hitems m hm).2) modeMatrix le_rfl
  refine ⟨matrix, ?_, fun c hc => ?_⟩
  · rw [modeMatrixAt, zipIdx_modeAccumulators]
    dsimp only
    rw [hall, Option.bind_eq_bind, Option.bind_some, List.map_map]
    exact hmatrix
  · rw [hchannels c hc (by split <;> omega)]
    funext i
    have hfst : ∀ p : List (T × T), p.sum.1 = (p.map Prod.fst).sum :=
      fun p => map_list_sum (AddMonoidHom.fst T T) p
    have hsnd : ∀ p : List (T × T), p.sum.2 = (p.map Prod.snd).sum :=
      fun p => map_list_sum (AddMonoidHom.snd T T) p
    by_cases hlow : c ≤ L / 2
    · simp only [if_pos hlow, sums, hfst, List.map_map, Function.comp_def, channelSignal]
    · simp only [if_neg hlow, sums, hsnd, List.map_map, Function.comp_def, channelSignal]

end

/-! ## The loudspeakers -/

/-- **The loudspeaker signals**: the accumulators have all channels between them, each of them once, and
fill them with what the sources play; a loudspeaker plays the sum over the sources of their channels,
each of which has a fixed coefficient for this place around the array. -/
theorem loudspeaker_signals {table : List (ℝ × ℝ)} {modes : ℕ → Mode ℝ n} {maxSize sampleRate : ℕ}
    {radius speedOfSound : ℝ} (hn : 0 < n) (hL : L / 2 < 2 ^ 32)
    (htable : table.length = laplaceCoeffsRows)
    (hnew : ∀ m ≤ L / 2, Mode.new maxSize m sampleRate radius speedOfSound = .ok (modes m))
    (sources : List (History ℝ n)) (arrayRadius : ℝ) (modeMatrix : ℕ → Samples n ℝ) (t : ℕ) :
    (0 < L → ((modeAccumulators L).flatMap ModeAccumulator.channels).Perm (List.range L)) ∧
    ∃ matrix, modeMatrixAt L table arrayRadius modes sources modeMatrix t = some matrix ∧
      (∀ c < L, matrix c = fun i =>
        (sources.map fun h => channelSignal L table arrayRadius modes h c t i).sum) ∧
      ∀ (out : Fin L) i, processFft HalfComplex.transform matrix out i =
        (sources.map fun h => ∑ c : Fin L,
          channelSignal L table arrayRadius modes h c t i * HalfComplex.basis L out c).sum := by
  obtain ⟨matrix, hmatrix, hchannels⟩ := modeMatrix_channels hn hL htable hnew sources arrayRadius
    modeMatrix t
  refine ⟨channels_modeAccumulators, matrix, hmatrix, hchannels, fun out i => ?_⟩
  have hrow : (fun c : Fin L => matrix c i) = fun c : Fin L =>
      (sources.map fun h => channelSignal L table arrayRadius modes h c t i).sum :=
    funext fun c => congrFun (hchannels c c.isLt) i
  rw [processFft]
  dsimp only
  rw [hrow]
  exact HalfComplex.transform_sum sources
    (fun h (c : Fin L) => channelSignal L table arrayRadius modes h c t i) out

/-- Three loudspeakers, with the modes 0 and 1. -/
theorem loudspeaker_signals_three : ∃ modes : ℕ → Mode ℝ 4,
    (∀ m ≤ 3 / 2, Mode.new 1 m 44100 2 343 = .ok (modes m)) ∧
    ((modeAccumulators 3).flatMap ModeAccumulator.channels).Perm (List.range 3) ∧
    ∃ matrix, modeMatrixAt 3 (List.replicate laplaceCoeffsRows (1, 1)) 2 modes [moving, moving]
        (fun _ _ => 7) 5 = some matrix ∧
      (∀ c < 3, matrix c = fun i => ([moving, moving].map fun h =>
        channelSignal 3 (List.replicate laplaceCoeffsRows (1, 1)) 2 modes h c 5 i).sum) ∧
      ∀ (out : Fin 3) i, processFft HalfComplex.transform matrix out i =
        ([moving, moving].map fun h => ∑ c : Fin 3,
          channelSignal 3 (List.replicate laplaceCoeffsRows (1, 1)) 2 modes h c 5 i *
            HalfComplex.basis 3 out c).sum := by
  have hmode : ∀ m, ∃ mode : Mode ℝ 4, m ≤ 3 / 2 → Mode.new 1 m 44100 2 343 = .ok mode := by
    intro m
    obtain rfl | rfl | hm : m = 0 ∨ m = 1 ∨ ¬m ≤ 3 / 2 := by omega
    · obtain ⟨mode, h⟩ := new_order_zero
      exact ⟨mode, fun _ => h⟩
    · obtain ⟨c, hc⟩ := HoaCoefficients.new_total
        (show HoaCoefficients.numSections 1 ≤ 1 by decide) (by decide) 44100 (2 : ℝ) 343
      exact ⟨_, fun _ => by rw [Mode.new, hc]; rfl⟩
    · obtain ⟨mode, -⟩ := new_order_zero
      exact ⟨mode, fun h => absurd h hm⟩
  choose modes hmodes using hmode
  obtain ⟨hchannels, hsignals⟩ := loudspeaker_signals (by decide) (by decide)
    (List.length_replicate ..) hmodes [moving, moving] 2 (fun _ _ => 7) 5
  exact ⟨modes, hmodes, hchannels (by decide), hsignals⟩

end NfcHoaRenderer

end Ssr
