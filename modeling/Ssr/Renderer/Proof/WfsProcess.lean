import Ssr.Renderer.Proof.MixedFilter
import Ssr.Renderer.Proof.WfsOutput
import Ssr.Renderer.WfsProcess

/-!
# Wave field synthesis from the inputs to the outputs

What an input writes into its delay line is the convolution of its signal with the prefilter
(`Input.Holds.run`). So a whole renderer is a `Scene` with these signals, and the outputs of all
loudspeakers are those of `output_eq` (`output_prefiltered`).
-/

set_option autoImplicit false

namespace Ssr.WfsRenderer

open Apf Conv CombineChannels Lib

variable {n k L : ℕ}

attribute [local irreducible] circularAdd toDifference toSize

attribute [local ext] BlockDelayLine

/-! ## Inputs -/

/-- The signal behind the prefilter, up to the newest silence. -/
noncomputable def prefiltered (n : ℕ) (ir : List ℝ) (xs : ℕ → ℕ → ℝ) (t j : ℕ) : ℝ :=
  let played := (List.range (t + 1)).map xs
  lastBlock n (ir.take (sounding n played.reverse * n)) played j

section
variable {fftw : Fftw ℝ}

/-- An input after `t` of the blocks `xs`. -/
structure Input.Holds (fftw : Fftw ℝ) (n : ℕ) (ir : List ℝ) (empty : Conv.Input ℝ)
    (l : NonCausalBlockDelayLine ℝ) (xs : ℕ → ℕ → ℝ) (t : ℕ) (input : Input ℝ) : Prop where
  convolver : input.convolver = ((List.range t).map xs).foldl (Conv.Input.addBlock fftw) empty
  preFilter : input.preFilter =
    prepareFilter fftw n ir (List.replicate (minPartitions n ir.length) .new)
  delayline : input.delayline =
    ((List.range t).map (prefiltered n ir xs)).foldl NonCausalBlockDelayLine.writeBlock l

variable {ir : List ℝ} {empty : Conv.Input ℝ} {l : NonCausalBlockDelayLine ℝ} {xs : ℕ → ℕ → ℝ}

theorem Input.new_delayline {maxSize maxDelay initialDelay : ℕ} {input : Input ℝ}
    (h : Input.new fftw maxSize n maxDelay initialDelay ir = some input) :
    NonCausalBlockDelayLine.new maxSize n maxDelay initialDelay = some input.delayline := by
  simp only [Input.new, Option.bind_eq_some_iff, Option.map_eq_some_iff] at h
  obtain ⟨-, -, l, hl, rfl⟩ := h
  exact hl

theorem Input.new_cases (hn : 0 < n) {maxSize maxDelay initialDelay : ℕ} {input : Input ℝ}
    (h : Input.new fftw maxSize n maxDelay initialDelay ir = some input) :
    ∃ empty, Conv.Input.new n (minPartitions n ir.length) = some empty ∧
      ∀ xs, input.Holds fftw n ir empty input.delayline xs 0 := by
  have hlength : (filter fftw n ir 0).length = minPartitions n ir.length :=
    length_prepareFilter ir _
  simp only [Input.new, Option.bind_eq_some_iff, Option.map_eq_some_iff, hlength] at h
  obtain ⟨empty, hempty, l, -, rfl⟩ := h
  refine ⟨empty, hempty, fun xs => ⟨rfl, ?_, rfl⟩⟩
  have hpartitions : empty.partitions = minPartitions n ir.length := by
    simp [Conv.Input.partitions, Conv.Input.spectra, (Conv.Input.new_cases hempty).2.2.1]
  rw [← hpartitions]
  exact setFilter_filter hn (.inl rfl)

/-- Only the samples of the block are written. -/
theorem writeBlock_congr {l : NonCausalBlockDelayLine ℝ} {x y : ℕ → ℝ}
    (h : ∀ j < l.blockSize, x j = y j) : l.writeBlock x = l.writeBlock y := by
  have hwrite : l.toBlockDelayLine.writeBlock x = l.toBlockDelayLine.writeBlock y := by
    have hcirculator : (l.toBlockDelayLine.writeBlock x).blockCirculator =
        (l.toBlockDelayLine.writeBlock y).blockCirculator := by
      rw [BlockDelayLine.writeBlock_blockCirculator, BlockDelayLine.writeBlock_blockCirculator]
    refine BlockDelayLine.ext ?_ ?_ ?_ (funext fun j => ?_) ?_ hcirculator
    · rw [BlockDelayLine.writeBlock_blockSize, BlockDelayLine.writeBlock_blockSize]
    · rw [BlockDelayLine.writeBlock_maxDelay, BlockDelayLine.writeBlock_maxDelay]
    · rw [BlockDelayLine.writeBlock_size, BlockDelayLine.writeBlock_size]
    · rw [BlockDelayLine.writeBlock_data, BlockDelayLine.writeBlock_data, hcirculator]
      split
      · exact h _ (by omega)
      · rfl
    · rw [BlockDelayLine.writeBlock_dataCirculator, BlockDelayLine.writeBlock_dataCirculator]
  rw [NonCausalBlockDelayLine.writeBlock, hwrite, NonCausalBlockDelayLine.writeBlock]

/-- The size of the blocks does not change. -/
theorem blockSize_foldl (l : NonCausalBlockDelayLine ℝ) (blocks : List (ℕ → ℝ)) :
    (blocks.foldl NonCausalBlockDelayLine.writeBlock l).blockSize = l.blockSize := by
  induction blocks generalizing l with
  | nil => rfl
  | cons x blocks ih =>
    rw [List.foldl_cons, ih]
    exact BlockDelayLine.writeBlock_blockSize l.toBlockDelayLine x

/-- **One block** of an input. -/
theorem Input.Holds.process (hexact : fftw.IsExact) (hn : 0 < n)
    (hempty : Conv.Input.new n (minPartitions n ir.length) = some empty) (hl : l.blockSize = n)
    {t : ℕ} {input : Input ℝ} (h : input.Holds fftw n ir empty l xs t) :
    (input.process fftw (xs t)).Holds fftw n ir empty l xs (t + 1) := by
  have hconvolver : input.convolver.addBlock fftw (xs t) =
      ((List.range (t + 1)).map xs).foldl (Conv.Input.addBlock fftw) empty := by
    rw [List.range_succ, List.map_append, List.foldl_append, ← h.convolver]
    rfl
  refine ⟨hconvolver, h.preFilter, ?_⟩
  obtain ⟨hspectra, h8, hpartitions⟩ := Conv.Input.addBlocks_hold hexact hn hempty
    ((List.range (t + 1)).map xs)
  rw [← hconvolver] at hspectra hpartitions
  have hfits : ir.length ≤ (input.convolver.addBlock fftw (xs t)).partitions * n := by
    rw [hpartitions]
    exact minPartitions_mul hn ir.length
  have hblockSize : input.delayline.blockSize = n := by
    rw [h.delayline, blockSize_foldl, hl]
  have hwrite : input.delayline.writeBlock
      (convolve fftw (input.convolver.addBlock fftw (xs t)) input.preFilter 1) =
        input.delayline.writeBlock (prefiltered n ir xs t) := by
    refine writeBlock_congr fun j hj => ?_
    rw [hblockSize] at hj
    rw [h.preFilter, ← hpartitions, convolve_eq hexact hn h8 hspectra ir 1 hj, one_mul,
      heard_eq_lastBlock hj hfits, List.reverse_reverse]
    rfl
  rw [List.range_succ, List.map_append, List.foldl_append, ← h.delayline]
  exact hwrite

end

/-! ## The renderer -/

section
variable (loudspeakers : Fin L → LoudspeakerOutput ℝ) (correction : ℝ)

/-- The weight of a source after `t` blocks. -/
noncomputable def weightAfter (frames : ℕ → Frame ℝ k) (i : Fin k) : ℕ → BlockParameter ℝ
  | 0 => .new 0
  | t + 1 => RenderSource.gains (frames t).state correction ((frames t).data i)
      (weightAfter frames i t)

/-- What the sources are and what is written into the delay lines, each of which is `l` at first. -/
noncomputable def played (n : ℕ) (ir : List ℝ) (l : NonCausalBlockDelayLine ℝ)
    (frames : ℕ → Frame ℝ k) : Scene ℝ k :=
  { states := fun t => (frames t).state
    outputs := List.ofFn loudspeakers
    delayline := l
    sources := fun i =>
      { data := fun t => (frames t).data i
        weightingFactor := fun t => weightAfter correction frames i (t + 1)
        blocks := prefiltered n ir fun t => (frames t).samples i } }

variable {loudspeakers correction} {fftw : Fftw ℝ} {ir : List ℝ} {empty : Conv.Input ℝ}
  {l : NonCausalBlockDelayLine ℝ} {frames : ℕ → Frame ℝ k} {r : WfsRenderer ℝ}

/-- A renderer after `t` of the blocks. -/
structure Renderer.Holds (fftw : Fftw ℝ) (r : WfsRenderer ℝ)
    (loudspeakers : Fin L → LoudspeakerOutput ℝ) (correction : ℝ) (ir : List ℝ)
    (empty : Conv.Input ℝ) (l : NonCausalBlockDelayLine ℝ) (frames : ℕ → Frame ℝ k) (t : ℕ)
    (s : Renderer ℝ n k L) : Prop where
  inputs : ∀ i, (s.inputs i).Holds fftw n ir empty l (fun t => (frames t).samples i) t
  weights : ∀ i, s.weightingFactors i = weightAfter correction frames i t
  driven : ∀ o, r.Driven (loudspeakers o) (played loudspeakers correction n ir l frames) t
    (s.sourcechannels o)

theorem Renderer.Holds.source (hexact : fftw.IsExact) (hn : 0 < n)
    (hempty : Conv.Input.new n (minPartitions n ir.length) = some empty) (hl : l.blockSize = n)
    {t : ℕ} {s : Renderer ℝ n k L}
    (h : s.Holds fftw r loudspeakers correction ir empty l frames t) :
    s.source fftw loudspeakers correction (frames t) =
      (played loudspeakers correction n ir l frames).sourceAt t := by
  funext i
  have hdelayline := ((h.inputs i).process hexact hn hempty hl).delayline
  rw [Renderer.source, h.weights i, hdelayline]
  rfl

/-- **One block** of the renderer. -/
theorem Renderer.Holds.process (hexact : fftw.IsExact)
    (hempty : Conv.Input.new n (minPartitions n ir.length) = some empty) {initialDelay : ℕ}
    (hl : Delays n initialDelay l) (hn : 0 < n) {t : ℕ}
    (hasserted : ∀ o i, Asserted (frames t).state (loudspeakers o)
      ((played loudspeakers correction n ir l frames).sourceAt t i))
    {s : Renderer ℝ n k L} (h : s.Holds fftw r loudspeakers correction ir empty l frames t) :
    ∃ s', s.process fftw r loudspeakers correction (raisedCosineFade n) (frames t) = some s' ∧
      s'.Holds fftw r loudspeakers correction ir empty l frames (t + 1) ∧
      ∀ o j, (s'.outputs o).out.buffer j = ∑ i,
        (r.arriving (loudspeakers o) (played loudspeakers correction n ir l frames) n initialDelay
            i t (t * n + j) * (raisedCosineFade n).fadeOut j +
          r.arriving (loudspeakers o) (played loudspeakers correction n ir l frames) n initialDelay
            i (t + 1) (t * n + j) * (raisedCosineFade n).fadeIn j) := by
  have hsource := h.source hexact hn hempty hl.blockSize
  have hout := fun o => r.output_step (loudspeakers o) hl raisedCosineFade_add (hasserted o)
    (h.driven o) (s.outputs o)
  choose b c hprocess hdriven hmix using hout
  have hprocess' : ∀ o, r.processOutput (frames t).state (loudspeakers o)
      (s.source fftw loudspeakers correction (frames t)) (raisedCosineFade n) (List.finRange k)
      (s.sourcechannels o) (s.outputs o) = some (b o, c o) := by
    rw [hsource]
    exact hprocess
  have hsome : ∀ o, (r.processOutput (frames t).state (loudspeakers o)
      (s.source fftw loudspeakers correction (frames t)) (raisedCosineFade n) (List.finRange k)
      (s.sourcechannels o) (s.outputs o)).isSome := fun o => by rw [hprocess' o]; rfl
  refine ⟨_, dif_pos hsome, ⟨fun i => ?_, fun i => ?_, fun o => ?_⟩, fun o j => ?_⟩
  · exact (h.inputs i).process hexact hn hempty hl.blockSize
  · show RenderSource.gains _ _ _ (s.weightingFactors i) = _
    rw [h.weights i]
    rfl
  · simp only [hprocess', Option.get_some]
    exact hdriven o
  · simp only [hprocess', Option.get_some]
    exact hmix o j

/-- **A run**, up to a block. -/
theorem Renderer.Holds.after (hexact : fftw.IsExact)
    (hempty : Conv.Input.new n (minPartitions n ir.length) = some empty) {initialDelay : ℕ}
    (hl : Delays n initialDelay l) (hn : 0 < n) {t : ℕ}
    (hasserted : ∀ t' < t, ∀ o i, Asserted (frames t').state (loudspeakers o)
      ((played loudspeakers correction n ir l frames).sourceAt t' i))
    {s : Renderer ℝ n k L} (h : s.Holds fftw r loudspeakers correction ir empty l frames 0) :
    ∃ s', s.after fftw r loudspeakers correction (raisedCosineFade n) frames t = some s' ∧
      s'.Holds fftw r loudspeakers correction ir empty l frames t := by
  induction t with
  | zero => exact ⟨s, rfl, h⟩
  | succ t ih =>
    obtain ⟨s', hrun, hs'⟩ := ih fun t' ht' => hasserted t' (by omega)
    obtain ⟨s'', hprocess, hs'', -⟩ := hs'.process hexact hempty hl hn (hasserted t (by omega))
    refine ⟨s'', ?_, hs''⟩
    rw [Renderer.after, hrun]
    exact hprocess

end

/-- **The outputs for all loudspeakers.** The signal of each source, convolved with the prefilter,
arrives with the weight and the delay of the previous block, which is faded out, and with those of
the block itself. -/
theorem output_prefiltered (r : WfsRenderer ℝ) (loudspeakers : Fin L → LoudspeakerOutput ℝ)
    (correction : ℝ) {fftw : Fftw ℝ} (hexact : fftw.IsExact) {ir : List ℝ}
    {maxSize maxDelay initialDelay : ℕ} (hmax : maxSize ≤ 2 ^ 62) (hmaxDelay : maxDelay < 2 ^ 64)
    (hinitial : initialDelay < 2 ^ 64) (hfits : maxDelay + initialDelay + 2 * n - 1 < 2 ^ 64)
    {input : Input ℝ} (hnew : Input.new fftw maxSize n maxDelay initialDelay ir = some input)
    (outputs : Fin L → Buffers n ℝ) (frames : ℕ → Frame ℝ k) (t : ℕ)
    (hasserted : ∀ t' ≤ t, ∀ o i, Asserted (frames t').state (loudspeakers o)
      ((played loudspeakers correction n ir input.delayline frames).sourceAt t' i)) :
    let scene := played loudspeakers correction n ir input.delayline frames
    ∃ s, (Renderer.start input outputs).after fftw r loudspeakers correction (raisedCosineFade n)
        frames (t + 1) = some s ∧
      ∀ o j, (s.outputs o).out.buffer j = ∑ i,
        (r.arriving (loudspeakers o) scene n initialDelay i t (t * n + j) *
            (raisedCosineFade n).fadeOut j +
          r.arriving (loudspeakers o) scene n initialDelay i (t + 1) (t * n + j) *
            (raisedCosineFade n).fadeIn j) := by
  intro scene
  have hdelayline := Input.new_delayline hnew
  obtain ⟨hpos, -⟩ := BlockDelayLine.new_cases (NonCausalBlockDelayLine.new_cases hdelayline).1
  obtain ⟨empty, hempty, hstart⟩ := Input.new_cases hpos hnew
  have hl := delays_new hmax hmaxDelay hinitial hfits hdelayline
  obtain ⟨s, hrun, hs⟩ := Renderer.Holds.after (r := r) hexact hempty hl hpos
    (fun t' ht' => hasserted t' ht'.le)
    (⟨fun i => hstart _, fun i => rfl, fun o i => ⟨rfl, rfl⟩⟩ :
      (Renderer.start input outputs).Holds fftw r loudspeakers correction ir empty
        input.delayline frames 0)
  obtain ⟨s', hprocess, -, hout⟩ := hs.process hexact hempty hl hpos (hasserted t le_rfl)
  refine ⟨s', ?_, hout⟩
  rw [Renderer.after, hrun]
  exact hprocess

/-- An impulse in every block, from a source behind the loudspeaker. -/
noncomputable def impulseFrame : Frame ℝ 1 :=
  { state := .new
    data := fun _ => behind
    samples := fun _ j => if j = 0 then 1 else 0 }

theorem weightAfter_impulseFrame (t : ℕ) :
    (weightAfter 1 (fun _ => impulseFrame) 0 (t + 1)).current = 1 := by
  simp [weightAfter, RenderSource.gains, impulseFrame, behind, BlockParameter.assign,
    BlockParameter.mulAssign, SourceData.new, RenderState.new, FloatOps.ofInt]

theorem prefiltered_impulse :
    prefiltered 8 [1 / 2] (fun _ j => if j = 0 then 1 else 0) 0 0 = 1 / 2 := by
  have hsilent : silent 8 [fun j => if j = 0 then (1 : ℝ) else 0] = false := by
    simp [silent, hasOnlyZeros]
  simp [prefiltered, sounding, hsilent, lastBlock, linearConvolution, stream]

/-- These impulses behind a prefilter. -/
noncomputable def impulseScene (ir : List ℝ) (l : NonCausalBlockDelayLine ℝ) : Scene ℝ 1 :=
  played (fun _ : Fin 1 => facing) 1 8 ir l fun _ => impulseFrame

section
variable {ir : List ℝ} {l : NonCausalBlockDelayLine ℝ}

theorem asserted_impulseScene (t : ℕ) (i : Fin 1) :
    Asserted impulseFrame.state facing ((impulseScene ir l).sourceAt t i) := by
  obtain rfl : i = 0 := Subsingleton.elim _ _
  refine (asserted_iff _ _ _).2 ⟨fun h => ?_, .inr ?_⟩
  · cases h
  · have hone := weightAfter_impulseFrame t
    simp [Scene.sourceAt, impulseScene, played, hone, facing]

variable (hvalid : l.delayIsValid 4 = true)
include hvalid

theorem driven_impulseScene (i : Fin 1) (t : ℕ) :
    fourSamples.driven facing (impulseScene ir l) i (t + 1) = (1 / 4, 4) := by
  obtain rfl : i = 0 := Subsingleton.elim _ _
  have hfocused : focused .new (List.ofFn fun _ : Fin 1 => facing) behind = false := focused_behind
  exact stored_behind rfl hfocused (weightAfter_impulseFrame t)
    ((delayIsValid_delayline l _ (t + 1) 4).trans hvalid)

theorem arriving_impulseScene (i : Fin 1) (t : ℕ) :
    fourSamples.arriving facing (impulseScene [1 / 2] l) 8 10 i (t + 1) 14 = 1 / 8 := by
  have hblocks : ((impulseScene [1 / 2] l).sources i).blocks 0 0 = 1 / 2 := prefiltered_impulse
  rw [arriving, driven_impulseScene hvalid]
  norm_num [History.signal, hblocks]

end

/-- The first impulse, after the initial delay of 10 samples and the 4 samples of the way; the
prefilter makes it half as loud. -/
theorem output_prefiltered_impulses : ∃ input : Input ℝ,
    Input.new Fftw.exact (2 ^ 62) 8 100 10 [1 / 2] = some input ∧ ∀ outputs : Fin 1 → Buffers 8 ℝ,
      ∃ s, (Renderer.start input outputs).after Fftw.exact fourSamples (fun _ => facing) 1
          (raisedCosineFade 8) (fun _ => impulseFrame) 2 = some s ∧
        ∀ o, (s.outputs o).out.buffer ⟨6, by decide⟩ = 1 / 8 := by
  obtain ⟨input, hinput⟩ : ∃ input : Input ℝ,
      Input.new Fftw.exact (2 ^ 62) 8 100 10 [1 / 2] = some input :=
    Option.isSome_iff_exists.1 (by decide)
  have hvalid : input.delayline.delayIsValid 4 = true := by
    have hdelayline := Input.new_delayline hinput
    obtain ⟨l, hl⟩ : ∃ l : NonCausalBlockDelayLine ℝ,
      NonCausalBlockDelayLine.new (2 ^ 62) 8 100 10 = some l := ⟨_, rfl⟩
    have heq : input.delayline = l := Option.some_injective _ (hdelayline.symm.trans hl)
    rw [heq]
    cases hl
    decide +kernel
  refine ⟨input, hinput, fun outputs => ?_⟩
  obtain ⟨s, hrun, hout⟩ := output_prefiltered fourSamples (fun _ : Fin 1 => facing) 1
    Fftw.exact_isExact le_rfl (by norm_num) (by norm_num) (by norm_num) hinput outputs
    (fun _ => impulseFrame) 1 fun t _ _ i => asserted_impulseScene t i
  refine ⟨s, hrun, fun o => ?_⟩
  have hsum := hout o ⟨6, by decide⟩
  rw [Fintype.sum_unique] at hsum
  norm_num only at hsum
  rw [hsum]
  change fourSamples.arriving facing (impulseScene [1 / 2] input.delayline) 8 10 _ 1 14 * _ +
    fourSamples.arriving facing (impulseScene [1 / 2] input.delayline) 8 10 _ 2 14 * _ = 1 / 8
  rw [arriving_impulseScene hvalid _ 0, arriving_impulseScene hvalid _ 1, ← mul_add,
    raisedCosineFade_add, mul_one]

end Ssr.WfsRenderer
