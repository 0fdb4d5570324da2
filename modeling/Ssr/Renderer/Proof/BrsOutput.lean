import Ssr.Apf.Proof.CMath
import Ssr.Apf.Proof.CombineChannels
import Ssr.Apf.Proof.Fade
import Ssr.Renderer.BrsProcess
import Ssr.Renderer.Proof.Crossfade
import Ssr.Renderer.Proof.MixedFilter

/-!
# The output of the BRS renderer

The sources of the renderer are independent (`Renderer.process_eq`), and whatever crossfade mode a
source chooses, its old signal is faded out and its new signal is faded in (`combine_value`). A signal
is the convolution of everything that the source has played with a mixed filter: a coefficient of
delay `τ` comes from the impulse response for the orientation that the listener had `τ / n` blocks
ago (`response`). From these, `output_heardWith` follows for all blocks of all runs.
-/

set_option autoImplicit false

namespace Apf.SourceChannel

open CombineChannels

variable {σ π α : Type} [Ring α] [DecidableEq α] {n : ℕ}

/-- **One channel in one block**, in the mix: the old signal with the fade-out and the new signal
with the fade-in, if the fades add up to one. -/
theorem combine_value (c : SourceChannel σ π α) (input : σ) {mode : CombineChannelsResult}
    {queuesEmpty : Bool} {filter : Option (List π)} {weight : BlockParameter α}
    (hmode : mode.Fits weight queuesEmpty filter.isSome) {fade : Fade n α} {j : Fin n}
    (hfade : fade.fadeOut j + fade.fadeIn j = 1) (samples : Convolved σ π α → Samples n α)
    (hzero : ∀ s, s.weight = 0 → samples s j = 0) :
    let c' := c.process input mode queuesEmpty filter weight
    let r := (c'.combine input).2
    Contribution.value fade ⟨r.out.map samples, r.fadeOut.map samples, r.fadeIn.map samples⟩ j =
      samples ⟨input, c.output.filterPtrs, weight.old⟩ j * fade.fadeOut j +
        samples ⟨input, c'.output.filterPtrs, weight.current⟩ j * fade.fadeIn j := by
  intro c' r
  obtain ⟨-, -, hold, hnew, -⟩ := c.combine_process input hmode
  change r.old = _ at hold
  change r.new = _ at hnew
  have helim : ∀ ptrs w, ((signalOf input ptrs w).map samples).elim 0 (fun x => x j) =
      samples ⟨input, ptrs, w⟩ j := by
    intro ptrs w
    unfold signalOf
    split
    · rename_i hw
      exact (hzero ⟨input, ptrs, w⟩ hw).symm
    · rfl
  rw [← helim, ← helim, ← hold, ← hnew, Contribution.value]
  have hmode' : c'.crossfadeMode = mode := rfl
  cases mode with
  | nothing =>
    have hr : r = ⟨none, none, none⟩ := congrArg Prod.snd (combine_nothing input hmode')
    simp [hr, Combined.old, Combined.new]
  | constant =>
    have hr : r = ⟨c'.signal, none, none⟩ := congrArg Prod.snd (combine_constant input hmode')
    simp [hr, Combined.old, Combined.new, ← mul_add, hfade]
  | change =>
    have hr : r = ⟨none, c'.signal, some (updated input c')⟩ :=
      congrArg Prod.snd (combine_change input hmode')
    simp [hr, Combined.old, Combined.new]
  | fadeIn =>
    have hr : r = ⟨none, none, some (updated input c')⟩ :=
      congrArg Prod.snd (combine_fadeIn input hmode')
    simp [hr, Combined.old, Combined.new]
  | fadeOut =>
    have hr : r = ⟨none, c'.signal, none⟩ := congrArg Prod.snd (combine_fadeOut input hmode')
    simp [hr, Combined.old, Combined.new]

end Apf.SourceChannel

namespace Ssr.Brs

open Apf Conv CombineChannels Lib

/-! ## Channels -/

section
variable {α : Type} {n k : ℕ} [Field α] {fftw : Fftw α} {cfg : Config α}

/-- The samples of a channel, if there are any. -/
def channelSamples (fftw : Fftw α) (cfg : Config α) (c : Channel (Conv.Input α) α) : Samples n α :=
  (c.signal.map (cfg.samples fftw)).getD fun _ => 0

/-- A channel as an item of its own. -/
def channelItem (fftw : Fftw α) (cfg : Config α) (input : Conv.Input α)
    (c : Channel (Conv.Input α) α) : Channel (Conv.Input α) α × Contribution n α :=
  contribution (channelObject input)
    { samples := fun c _ => channelSamples fftw cfg c
      fadeOutSamples := fun c _ => channelSamples fftw cfg c } c ()

/-- The channels of an output are independent. -/
theorem independent (fftw : Fftw α) (cfg : Fin k → Config α) (inputs : Fin k → Conv.Input α) :
    Independent (renderFunction inputs)
      { samples := fun c i => channelSamples fftw (cfg i) (c i)
        fadeOutSamples := fun c i => channelSamples (n := n) fftw (cfg i) (c i) } id
      (fun i c => (channelItem fftw (cfg i) (inputs i) c).2)
      fun i c => (channelItem (n := n) fftw (cfg i) (inputs i) c).1 := by
  refine ⟨fun c i => ?_, fun c i j => ?_⟩
  · unfold channelItem contribution renderFunction channelObject
    cases hmode : (c i).crossfadeMode with
    | nothing => simp [hmode]
    | constant => simp [hmode]
    | change => simp [hmode]
    | fadeIn => simp [hmode]
    | fadeOut => simp [hmode]
  · unfold channelItem contribution renderFunction channelObject
    cases hmode : (c i).crossfadeMode with
    | nothing => simp +contextual [hmode]
    | constant => simp +contextual [hmode]
    | change => simp [hmode, Function.update_apply]
    | fadeIn => simp [hmode, Function.update_apply]
    | fadeOut => simp +contextual [hmode]

theorem channelItem_fst (input : Conv.Input α) (c : Channel (Conv.Input α) α) :
    (channelItem (n := n) fftw cfg input c).1 = (c.combine input).1 := by
  unfold channelItem contribution channelObject SourceChannel.combine
  cases hmode : c.crossfadeMode with
  | nothing => simp [hmode]
  | constant => simp [hmode]
  | change => simp [hmode]
  | fadeIn => simp [hmode]
  | fadeOut => simp [hmode]

/-- A channel that has a signal wherever one is taken. -/
theorem channelItem_snd (input : Conv.Input α) {c : Channel (Conv.Input α) α}
    (h : c.signal = none → c.crossfadeMode = .nothing ∨ c.crossfadeMode = .fadeIn) :
    (channelItem (n := n) fftw cfg input c).2 =
      ⟨(c.combine input).2.out.map (cfg.samples fftw),
        (c.combine input).2.fadeOut.map (cfg.samples fftw),
        (c.combine input).2.fadeIn.map (cfg.samples fftw)⟩ := by
  cases hsignal : c.signal with
  | some signal =>
    exact congrArg Prod.snd (contribution_combine (cfg.samples fftw) input hsignal)
  | none =>
    unfold channelItem contribution channelObject SourceChannel.combine
    obtain hmode | hmode := h hsignal
    · simp [hmode]
    · simp [hmode, channelSamples, SourceChannel.update, SourceChannel.convolveAndMore]

/-- Without a weight nothing is heard. -/
theorem samples_of_weight_zero {signal : Convolved (Conv.Input α) NodePtr α}
    (h : signal.weight = 0) (j : Fin n) : cfg.samples fftw signal j = 0 := by
  rw [Config.samples, h]
  exact convolve_weight_zero fftw _ _ j

end

/-! ## One block of the renderer -/

section
variable {n k : ℕ} (fftw : Fftw ℝ) (cfg : Fin k → Config ℝ) (angles : Fin k → ℕ) (correction : ℝ)

/-- The left and the right output. -/
def Renderer.output (r : Renderer ℝ n k) (ear : Fin 2) : Buffers n ℝ :=
  if ear.val = 0 then r.left else r.right

/-- The left and the right channel. -/
def Source.channel (s : Source (Conv.Input ℝ) ℝ) (ear : Fin 2) : Channel (Conv.Input ℝ) ℝ :=
  if ear.val = 0 then s.left else s.right

/-- A source after a block. -/
noncomputable def Source.next (cfg : Config ℝ) (s : Source (Conv.Input ℝ) ℝ)
    (b : Block (Conv.Input ℝ) ℝ) : Source (Conv.Input ℝ) ℝ :=
  let s := s.process cfg b
  { s with left := (s.left.combine b.input).1, right := (s.right.combine b.input).1 }

theorem processOutput_eq (fade : Fade n ℝ) (inputs : Fin k → Conv.Input ℝ)
    (c : Fin k → Channel (Conv.Input ℝ) ℝ) (b : Buffers n ℝ) :
    (processOutput fftw cfg inputs fade c b).1 = (fun i => ((c i).combine (inputs i)).1) ∧
      ∀ j, (processOutput fftw cfg inputs fade c b).2.out.buffer j =
        ∑ i, (channelItem fftw (cfg i) (inputs i) (c i)).2.value fade j := by
  obtain ⟨hmix, hchannels⟩ := (independent fftw cfg inputs).process fade
    (List.nodup_finRange k) c b
  refine ⟨funext fun i => ?_, fun j => ?_⟩
  · have hi := hchannels i
    rw [if_pos (List.mem_finRange i), channelItem_fst] at hi
    exact hi
  · rw [Fin.sum_univ_def]
    exact hmix j

/-- **One block**: the sources go on as if they were alone, and an output is the sum of what they
contribute. -/
theorem Renderer.process_eq (fade : Fade n ℝ) (r : Renderer ℝ n k) (f : Frame ℝ k) :
    let block := blockOf fftw angles correction f r.inputs
    let r' := r.process fftw cfg angles correction fade f
    (∀ i, r'.inputs i = (block i).input) ∧ (∀ i, r'.sources i = (r.sources i).next (cfg i) (block i)) ∧
      ∀ ear j, (r'.output ear).out.buffer j = ∑ i, (channelItem fftw (cfg i) (block i).input
        (((r.sources i).process (cfg i) (block i)).channel ear)).2.value fade j := by
  intro block r'
  obtain ⟨hleft, hleft'⟩ := processOutput_eq fftw cfg fade (fun i => (block i).input)
    (fun i => ((r.sources i).process (cfg i) (block i)).left) r.left
  obtain ⟨hright, hright'⟩ := processOutput_eq fftw cfg fade (fun i => (block i).input)
    (fun i => ((r.sources i).process (cfg i) (block i)).right) r.right
  refine ⟨fun i => rfl, fun i => ?_, fun ear j => ?_⟩
  · have hsource : r'.sources i = { (r.sources i).process (cfg i) (block i) with
        left := (processOutput fftw cfg (fun i => (block i).input) fade
          (fun i => ((r.sources i).process (cfg i) (block i)).left) r.left).1 i
        right := (processOutput fftw cfg (fun i => (block i).input) fade
          (fun i => ((r.sources i).process (cfg i) (block i)).right) r.right).1 i } := rfl
    rw [hsource, hleft, hright]
    rfl
  · fin_cases ear
    · exact hleft' j
    · exact hright' j

/-! ## Runs -/

variable (empty : Fin k → Conv.Input ℝ)

/-- What a source has computed for the blocks of `past`. -/
noncomputable def blocks : List (Frame ℝ k) → Fin k → List (Block (Conv.Input ℝ) ℝ)
  | [], _ => []
  | f :: past, i =>
    blockOf fftw angles correction f (inputAfter fftw empty past) i :: blocks past i

/-- The state of a renderer after the blocks of `past`. -/
structure Renderer.Holds (r : Renderer ℝ n k) (past : List (Frame ℝ k)) : Prop where
  inputs : r.inputs = inputAfter fftw empty past
  recorded : ∀ i, Run.Recorded (cfg i) ⟨r.sources i, none, none⟩
    (blocks fftw angles correction empty past i)
  weight : ∀ i, (r.sources i).weightingFactor.current =
    lastParameter Block.weightingFactor (-1) (blocks fftw angles correction empty past i)

theorem blocks_brtfIndex (past : List (Frame ℝ k)) (i : Fin k) :
    (blocks fftw angles correction empty past i).map Block.brtfIndex =
      past.map fun f => brtfIndex (angles i) f.state.referenceOrientation.azimuth := by
  induction past with
  | nil => rfl
  | cons f past ih =>
    rw [blocks, List.map_cons, ih]
    rfl

variable {fftw cfg angles correction empty}

theorem Renderer.Holds.process {r : Renderer ℝ n k} {past : List (Frame ℝ k)}
    (h : r.Holds fftw cfg angles correction empty past)
    (hbrtfs : ∀ i index, (cfg i).brtfSet index ≠ []) (fade : Fade n ℝ) (f : Frame ℝ k) :
    (r.process fftw cfg angles correction fade f).Holds fftw cfg angles correction empty
      (f :: past) := by
  obtain ⟨hinputs, hsources, -⟩ := r.process_eq fftw cfg angles correction fade f
  refine ⟨?_, fun i => ?_, fun i => ?_⟩
  · funext i
    rw [hinputs, h.inputs, inputAfter_cons]
    rfl
  · rw [hsources, h.inputs]
    obtain ⟨hleft, hright, hlast⟩ := (h.recorded i).step (hbrtfs i) rfl
    exact ⟨hleft, hright, hlast⟩
  · rw [hsources, h.inputs]
    rfl

end

/-! ## What is heard -/

section
variable {n k : ℕ} {fftw : Fftw ℝ} {size : ℕ} {channels : List (List ℝ)} {cfg : Config ℝ}

theorem Config.load_cases (h : Config.load fftw n size channels = some cfg) :
    channels.length % 2 = 0 ∧ cfg.partitions = minPartitions n size ∧
      ∀ index, cfg.brtfSet index = prepareFilter fftw n (channels.getD index [])
        (List.replicate (minPartitions n size) .new) := by
  unfold Config.load at h
  split at h
  · cases h
  · rename_i heven
    cases h
    exact ⟨by omega, rfl, fun _ => rfl⟩

theorem brtfIndex_lt {angles : ℕ} (hangles : 0 < angles) (azimuth : ℝ) :
    brtfIndex angles azimuth < angles := by
  obtain ⟨hnonneg, hlt⟩ := fwrap_mem (Nat.cast_pos.2 hangles : (0 : ℝ) < angles)
    ((azimuth - (90 : ℕ)) * (angles : ℝ) / (360 : ℕ) + 1 / (2 : ℕ))
  exact (Nat.floor_lt hnonneg).2 hlt

theorem contents_node (ptr : NodePtr) : (cfg.node ptr).contents = cfg.contents ptr := by
  cases ptr with
  | empty => rfl
  | brtf index partition =>
    rw [Config.node, Config.contents, Conv.contents, List.getD_eq_getElem?_getD]
    cases (cfg.brtfSet index)[partition]? with
    | none => rfl
    | some node => rfl

/-- The impulse response for the orientation of the listener in a block. -/
noncomputable def coefficients (channels : List (List ℝ)) (ear : Fin 2) (f : Frame ℝ k) :
    List ℝ :=
  channels.getD (2 * brtfIndex (channels.length / 2) f.state.referenceOrientation.azimuth + ear) []

/-- What is heard of a source in the newest block of `fs`, if its filters are those of `played`: the
convolution of its signal with the mixed filter, up to the newest silence. -/
noncomputable def response (n size : ℕ) (channels : List (List ℝ)) (ear : Fin 2) (i : Fin k)
    (played fs : List (Frame ℝ k)) (j : ℕ) : ℝ :=
  let xs := fs.map fun f => f.samples i
  let filters := played.reverse.map (coefficients channels ear)
  lastBlock n ((mixed n (minPartitions n size) filters).take (sounding n xs.reverse * n)) xs j

/-- **A channel whose pointers are right.** -/
theorem samples_of_oneFilter (hexact : fftw.IsExact) (hn : 0 < n) (h8 : n % 8 = 0)
    (hsize : 0 < size) (hchannels : channels ≠ []) (hlength : ∀ h ∈ channels, h.length = size)
    (hload : Config.load fftw n size channels = some cfg) {input : Conv.Input ℝ} {i : Fin k}
    {fs : List (Frame ℝ k)} (hinput : Input.Holds n input (fs.map fun f => f.samples i).reverse)
    (hpartitions : input.partitions = minPartitions n size) {c : Channel (Conv.Input ℝ) ℝ}
    {ear : Fin 2} {bs : List (Block (Conv.Input ℝ) ℝ)} {played : List (Frame ℝ k)}
    (hbs : bs.map Block.brtfIndex = played.reverse.map fun f =>
      brtfIndex (channels.length / 2) f.state.referenceOrientation.azimuth)
    (hone : OneFilter cfg c ear bs) (hptrs : c.output.filterPtrs.length = cfg.partitions)
    (weight : ℝ) (j : Fin n) :
    cfg.samples fftw ⟨input, c.output.filterPtrs, weight⟩ j =
      weight * response n size channels ear i played fs j := by
  obtain ⟨heven, hcfg, hset⟩ := Config.load_cases hload
  have hangles : 0 < channels.length / 2 := by
    have := List.length_pos_iff.2 hchannels
    omega
  have hfull : ∀ h ∈ played.reverse.map (coefficients channels ear),
      (input.partitions - 1) * n < h.length := by
    intro h hh
    obtain ⟨f, -, rfl⟩ := List.mem_map.1 hh
    have hindex := brtfIndex_lt hangles f.state.referenceOrientation.azimuth
    have hlt : 2 * brtfIndex (channels.length / 2) f.state.referenceOrientation.azimuth + ear <
        channels.length := by
      have := ear.isLt
      omega
    rw [coefficients, List.getD_eq_getElem _ _ hlt, hlength _ (List.getElem_mem hlt),
      hpartitions]
    exact minPartitions_pred_mul_lt hn hsize
  rw [Config.samples, convolve_mixed hexact hn h8 hinput ?_ ?_ hfull weight j.isLt, hpartitions,
    response, List.reverse_reverse]
  · rw [List.length_map, hptrs, hcfg, hpartitions]
  · intro p hp
    rw [hpartitions] at hp
    obtain ⟨ptr, hptr, hcontents⟩ := hone p (hcfg ▸ hp)
    have hfilter : bs[p]?.map Block.brtfIndex = played.reverse[p]?.map fun f =>
        brtfIndex (channels.length / 2) f.state.referenceOrientation.azimuth := by
      rw [← List.getElem?_map, ← List.getElem?_map, hbs]
    rw [Conv.contents, List.getElem?_map, hptr, Option.map_some, Option.bind_some, contents_node,
      hcontents, List.getElem?_map]
    cases hf : played.reverse[p]? with
    | none =>
      rw [hf, Option.map_none, Option.map_eq_none_iff] at hfilter
      rw [hfilter]
      rfl
    | some f =>
      rw [hf, Option.map_some, Option.map_eq_some_iff] at hfilter
      obtain ⟨b, hb, hindex⟩ := hfilter
      rw [hb, Option.bind_some, Option.map_some, Option.bind_some, Config.selected, hindex, hset,
        contents_prepareFilter hn, if_pos hp]
      rfl

end

/-! ## The output -/

theorem Source.process_channel (cfg : Config ℝ) (s : Source (Conv.Input ℝ) ℝ)
    (b : Block (Conv.Input ℝ) ℝ) (ear : Fin 2) :
    (s.process cfg b).channel ear = (s.channel ear).process b.input
      (crossfadeMode s.left.output.queuesEmpty (s.brtfIndex.assign b.brtfIndex).changed
        (s.weightingFactor.assign b.weightingFactor)) s.left.output.queuesEmpty
      (if (s.brtfIndex.assign b.brtfIndex).changed then
        some (brtfPtrs cfg (2 * b.brtfIndex + ear)) else none)
      (s.weightingFactor.assign b.weightingFactor) := by
  fin_cases ear
  · rfl
  · rfl

theorem Source.next_channel_output (cfg : Config ℝ) (s : Source (Conv.Input ℝ) ℝ)
    (b : Block (Conv.Input ℝ) ℝ) (ear : Fin 2) :
    ((s.next cfg b).channel ear).output = ((s.process cfg b).channel ear).output := by
  fin_cases ear
  · exact SourceChannel.combine_output b.input
  · exact SourceChannel.combine_output b.input

theorem Run.Recorded.channel {cfg : Config ℝ} {r : Run (Conv.Input ℝ) ℝ}
    {past : List (Block (Conv.Input ℝ) ℝ)} (h : r.Recorded cfg past) (ear : Fin 2) :
    (r.source.channel ear).output.Holds .empty cfg.partitions (filterSettings cfg ear past) := by
  fin_cases ear
  · exact h.left
  · exact h.right

/-- **One source in one block**, as one output hears it. -/
theorem channelItem_value {n : ℕ} {fftw : Fftw ℝ} (cfg : Config ℝ) (s : Source (Conv.Input ℝ) ℝ)
    (b : Block (Conv.Input ℝ) ℝ) (ear : Fin 2) {fade : Fade n ℝ} {j : Fin n}
    (hfade : fade.fadeOut j + fade.fadeIn j = 1) :
    (channelItem fftw cfg b.input ((s.process cfg b).channel ear)).2.value fade j =
      cfg.samples fftw ⟨b.input, (s.channel ear).output.filterPtrs, s.weightingFactor.current⟩ j *
          fade.fadeOut j +
        cfg.samples fftw ⟨b.input, ((s.next cfg b).channel ear).output.filterPtrs,
          b.weightingFactor⟩ j * fade.fadeIn j := by
  rw [s.next_channel_output, s.process_channel]
  have hmode : (crossfadeMode s.left.output.queuesEmpty (s.brtfIndex.assign b.brtfIndex).changed
      (s.weightingFactor.assign b.weightingFactor)).Fits
        (s.weightingFactor.assign b.weightingFactor) s.left.output.queuesEmpty
        (if (s.brtfIndex.assign b.brtfIndex).changed then
          some (brtfPtrs cfg (2 * b.brtfIndex + ear)) else none).isSome := by
    have hfits := crossfadeMode_fits s.left.output.queuesEmpty
      (s.brtfIndex.assign b.brtfIndex).changed (s.weightingFactor.assign b.weightingFactor)
    cases hchanged : (s.brtfIndex.assign b.brtfIndex).changed with
    | false => rwa [hchanged] at hfits
    | true => rwa [hchanged] at hfits
  rw [channelItem_snd]
  · exact (s.channel ear).combine_value b.input hmode hfade (cfg.samples fftw)
      fun signal hweight => samples_of_weight_zero hweight j
  · intro hnone
    rw [SourceChannel.process_signal] at hnone
    split at hnone
    · assumption
    · cases hnone

section
variable {n k : ℕ} {fftw : Fftw ℝ} {correction : ℝ} {channels : Fin k → List (List ℝ)}
  {size : Fin k → ℕ} {cfg : Fin k → Config ℝ} {empty : Fin k → Conv.Input ℝ}

theorem holds_start (angles : Fin k → ℕ) (left right : Buffers n ℝ) :
    (Renderer.start cfg empty left right).Holds fftw cfg angles correction empty [] where
  inputs := rfl
  recorded _ := Run.recorded_start
  weight _ := rfl

/-- **A run.** -/
theorem holds_run (angles : Fin k → ℕ) (hbrtfs : ∀ i index, (cfg i).brtfSet index ≠ [])
    (fade : Fade n ℝ) (left right : Buffers n ℝ) (fs : List (Frame ℝ k)) :
    (fs.foldl (Renderer.process fftw cfg angles correction fade)
      (.start cfg empty left right)).Holds fftw cfg angles correction empty fs.reverse := by
  induction fs using List.reverseRecOn with
  | nil => exact holds_start angles left right
  | append_singleton fs f ih =>
    rw [List.foldl_append, List.reverse_append]
    exact ih.process hbrtfs fade f

/-- What is heard of a source in the newest block of `fs`, with the weight and the filters that it
has after the blocks of `played`. -/
noncomputable def heardWith (n : ℕ) (correction : ℝ) (size : ℕ) (channels : List (List ℝ))
    (ear : Fin 2) (i : Fin k) (played fs : List (Frame ℝ k)) (j : ℕ) : ℝ :=
  played.getLast?.elim 0 (fun f => f.weightingFactor correction i) *
    response n size channels ear i played fs j

/-- Before the first block there is no filter, so the first weight does not matter. -/
theorem lastParameter_mul_response (angles : Fin k → ℕ) (n : ℕ) (size : ℕ)
    (channels : List (List ℝ)) (ear : Fin 2) (i : Fin k) (played fs : List (Frame ℝ k)) (j : ℕ) :
    lastParameter Block.weightingFactor (-1)
        (blocks fftw angles correction empty played.reverse i) *
          response n size channels ear i played fs j =
      heardWith n correction size channels ear i played fs j := by
  cases played using List.reverseRecOn with
  | nil =>
    have hsilent : response n size channels ear i [] fs j = 0 := by
      rw [response, List.reverse_nil, List.map_nil, mixed_nil, List.take_nil,
        lastBlock_nil_filter]
    rw [heardWith, hsilent, mul_zero, mul_zero]
  | append_singleton played f =>
    rw [heardWith, List.reverse_append, List.getLast?_concat]
    rfl

variable (hexact : fftw.IsExact) (hn : 0 < n) (hsize : ∀ i, 0 < size i)
  (hchannels : ∀ i, channels i ≠ []) (hcount : ∀ i, (channels i).length < 2 ^ 31)
  (hlength : ∀ i, ∀ h ∈ channels i, h.length = size i)
  (hload : ∀ i, Config.load fftw n (size i) (channels i) = some (cfg i))
  (hinput : ∀ i, Conv.Input.new n (minPartitions n (size i)) = some (empty i))

include hexact hn hsize hchannels hcount hlength hload hinput

/-- What a channel would put out in the newest block of `fs`, with its state after `played`. -/
theorem Renderer.Holds.samples {r : Renderer ℝ n k} {played : List (Frame ℝ k)}
    (h : r.Holds fftw cfg (fun i => (channels i).length / 2) correction empty played.reverse)
    (ear : Fin 2) (i : Fin k) (fs : List (Frame ℝ k)) (j : Fin n) :
    (cfg i).samples fftw ⟨inputAfter fftw empty fs.reverse i,
        ((r.sources i).channel ear).output.filterPtrs, (r.sources i).weightingFactor.current⟩ j =
      heardWith n correction (size i) (channels i) ear i played fs j := by
  obtain ⟨heven, -, -⟩ := Config.load_cases (hload i)
  have hangles : 0 < (channels i).length / 2 := by
    have := List.length_pos_iff.2 (hchannels i)
    omega
  obtain ⟨hspectra, h8, hpartitions⟩ := Input.addBlocks_hold hexact hn (hinput i)
    (fs.map fun f => f.samples i)
  have hsame : inputAfter fftw empty fs.reverse i =
      (fs.map fun f => f.samples i).foldl (Input.addBlock fftw) (empty i) := by
    rw [inputAfter, List.reverse_reverse]
  rw [← hsame] at hspectra hpartitions
  have hchannel := (h.recorded i).channel ear
  have hbs := blocks_brtfIndex fftw (fun i => (channels i).length / 2) correction empty
    played.reverse i
  have hvalid : ∀ b ∈ blocks fftw (fun i => (channels i).length / 2) correction empty
      played.reverse i, b.brtfIndex < 2 ^ 64 - 1 := by
    intro b hb
    have hmem := List.mem_map_of_mem (f := Block.brtfIndex) hb
    rw [hbs] at hmem
    obtain ⟨f, -, hf⟩ := List.mem_map.1 hmem
    have hlt := brtfIndex_lt hangles f.state.referenceOrientation.azimuth
    have := hcount i
    omega
  have hptrs : ((r.sources i).channel ear).output.filterPtrs.length = (cfg i).partitions := by
    rw [hchannel.filterPtrs, List.length_map, List.length_range]
  rw [samples_of_oneFilter hexact hn h8 (hsize i) (hchannels i) (hlength i) (hload i) hspectra
    hpartitions hbs (oneFilter_of_holds hchannel hvalid) hptrs, h.weight,
    lastParameter_mul_response]

/-- **The output of the BRS renderer.** -/
theorem output_heardWith (left right : Buffers n ℝ) (fs : List (Frame ℝ k)) (f : Frame ℝ k) (ear : Fin 2)
    (j : Fin n) :
    let r := (fs ++ [f]).foldl (Renderer.process fftw cfg (fun i => (channels i).length / 2)
      correction (raisedCosineFade n)) (.start cfg empty left right)
    (r.output ear).out.buffer j = ∑ i,
      (heardWith n correction (size i) (channels i) ear i fs (fs ++ [f]) j *
          (raisedCosineFade n).fadeOut j +
        heardWith n correction (size i) (channels i) ear i (fs ++ [f]) (fs ++ [f]) j *
          (raisedCosineFade n).fadeIn j) := by
  intro r
  let angles := fun i => (channels i).length / 2
  let r₀ := fs.foldl (Renderer.process fftw cfg angles correction (raisedCosineFade n))
    (.start cfg empty left right)
  have hr : r = r₀.process fftw cfg angles correction (raisedCosineFade n) f := List.foldl_concat ..
  have hbrtfs : ∀ i index, (cfg i).brtfSet index ≠ [] := by
    intro i index
    obtain ⟨-, -, hset⟩ := Config.load_cases (hload i)
    have hpos : 0 < minPartitions n (size i) := Nat.div_pos (by have := hsize i; omega) hn
    rw [hset, ← List.length_pos_iff, length_prepareFilter]
    exact hpos
  have hbefore : r₀.Holds fftw cfg angles correction empty fs.reverse :=
    holds_run angles hbrtfs _ left right fs
  have hafter : r.Holds fftw cfg angles correction empty (fs ++ [f]).reverse :=
    holds_run angles hbrtfs _ left right (fs ++ [f])
  obtain ⟨-, hsources, hout⟩ := r₀.process_eq fftw cfg angles correction
    (raisedCosineFade n) f
  rw [hr, hout]
  refine Finset.sum_congr rfl fun i _ => ?_
  have hblock : (blockOf fftw angles correction f r₀.inputs i).input =
      inputAfter fftw empty (fs ++ [f]).reverse i := by
    rw [List.reverse_append, List.reverse_singleton, List.singleton_append, inputAfter_cons,
      hbefore.inputs]
    rfl
  have hold := hbefore.samples hexact hn hsize hchannels hcount hlength hload hinput ear i
    (fs ++ [f]) j
  have hnew := hafter.samples hexact hn hsize hchannels hcount hlength hload hinput ear i
    (fs ++ [f]) j
  rw [hr, hsources] at hnew
  rw [channelItem_value (cfg i) (r₀.sources i) _ ear (raisedCosineFade_add j), ← hold, ← hnew,
    ← hblock]
  rfl

end

/-- A source with two impulse responses of one sample. -/
theorem output_heardWith_impulses : ∃ (cfg : Fin 1 → Config ℝ) (empty : Fin 1 → Conv.Input ℝ),
    (∀ i, Config.load Fftw.exact 8 1 [[1], [2]] = some (cfg i)) ∧
    (∀ i, Conv.Input.new 8 (minPartitions 8 1) = some (empty i)) ∧
    ∀ (left right : Buffers 8 ℝ) (fs : List (Frame ℝ 1)) (f : Frame ℝ 1) (ear : Fin 2) (j : Fin 8),
      let r := (fs ++ [f]).foldl (Renderer.process Fftw.exact cfg (fun _ => 1) 1
        (raisedCosineFade 8)) (.start cfg empty left right)
      (r.output ear).out.buffer j = ∑ i,
        (heardWith 8 1 1 [[1], [2]] ear i fs (fs ++ [f]) j * (raisedCosineFade 8).fadeOut j +
          heardWith 8 1 1 [[1], [2]] ear i (fs ++ [f]) (fs ++ [f]) j *
            (raisedCosineFade 8).fadeIn j) := by
  refine ⟨fun _ => _, fun _ => _, fun _ => rfl, fun _ => rfl, fun left right => ?_⟩
  exact @output_heardWith 8 1 Fftw.exact 1 (fun _ => [[1], [2]]) (fun _ => 1) _ _
    Fftw.exact_isExact (by decide) (fun _ => by decide) (fun _ => by simp) (fun _ => by norm_num)
    (fun _ h hh => by simp at hh; rcases hh with rfl | rfl <;> rfl) (fun _ => rfl) (fun _ => rfl)
    left right

end Ssr.Brs
