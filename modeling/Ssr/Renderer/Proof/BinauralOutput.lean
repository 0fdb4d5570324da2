import Ssr.Apf.Proof.CMath
import Ssr.Apf.Proof.CombineChannels
import Ssr.Apf.Proof.Fade
import Ssr.Renderer.Proof.Crossfade
import Ssr.Renderer.Proof.Interpolated

/-!
# The output of the binaural renderer

As for the BRS renderer, the old signal of a source is faded out and its new signal is faded in
(`Source.sound_value`), and a signal is a convolution with a mixed filter: partition `p` is that of
the setting of `p` blocks ago. If that setting was interpolated, however, its partitions are read
from `temporary_hrtf`, where those of the newest interpolated setting are by then (`inEffect`). With
this, `output_hrtfs` gives the outputs in all blocks of all runs.
-/

set_option autoImplicit false

namespace Ssr.Binaural

open Apf Conv CombineChannels Lib

variable {n k : ℕ} {fftw : Fftw ℝ} {cfg : Config ℝ}

/-! ## One channel in the mix -/

section
variable (fftw cfg) (input : Conv.Input ℝ) (s : Sound ℝ n)

/-- A channel after its block. -/
noncomputable def Sound.next : Sound ℝ n :=
  if s.channel.crossfadeMode = .change ∨ s.channel.crossfadeMode = .fadeIn then
    s.update fftw cfg input
  else s

/-- What a channel contributes to the mix. -/
noncomputable def Sound.contribution : Contribution n ℝ :=
  match s.channel.crossfadeMode with
  | .nothing => ⟨none, none, none⟩
  | .constant => ⟨some s.samples, none, none⟩
  | .change => ⟨none, some s.samples, some (s.update fftw cfg input).samples⟩
  | .fadeIn => ⟨none, none, some (s.update fftw cfg input).samples⟩
  | .fadeOut => ⟨none, some s.samples, none⟩

end

/-- The channels of an output are independent. -/
theorem independent (fftw : Fftw ℝ) (cfg : Config ℝ) (inputs : Fin k → Conv.Input ℝ) :
    Independent (renderFunction fftw cfg inputs)
      { samples := fun s i => (s i).samples, fadeOutSamples := fun s i => (s i).samples (n := n) } id
      (fun i s => s.contribution fftw cfg (inputs i)) fun i s => s.next fftw cfg (inputs i) := by
  refine ⟨fun s i => ?_, fun s i j => ?_⟩
  · unfold CombineChannels.contribution Sound.contribution renderFunction
    cases hmode : (s i).channel.crossfadeMode with
    | nothing => simp [hmode]
    | constant => simp [hmode]
    | change => simp [hmode]
    | fadeIn => simp [hmode]
    | fadeOut => simp [hmode]
  · unfold CombineChannels.contribution Sound.next renderFunction
    cases hmode : (s i).channel.crossfadeMode with
    | nothing => simp +contextual [hmode]
    | constant => simp +contextual [hmode]
    | change => simp [hmode]
    | fadeIn => simp [hmode]
    | fadeOut => simp +contextual [hmode]

/-- The rest of a channel goes on as in `combine`. -/
theorem Sound.next_channel (input : Conv.Input ℝ) (s : Sound ℝ n) :
    (s.next fftw cfg input).channel =
      { s.channel with toSourceChannel := (s.channel.combine input).1 } := by
  unfold Sound.next SourceChannel.combine
  cases s.channel.crossfadeMode with
  | nothing => simp
  | constant => simp
  | change => simp [Sound.update]
  | fadeIn => simp [Sound.update]
  | fadeOut => simp

/-! ## One source -/

theorem Channel.convolve_zero (c : Channel (Conv.Input ℝ) ℝ) (input : Conv.Input ℝ) :
    c.convolve fftw cfg input 0 = fun _ : Fin n => 0 :=
  funext fun j => convolve_weight_zero fftw input _ j

section
variable (cfg) (c : Channel (Conv.Input ℝ) ℝ) (i : ℕ) (b : Block (Conv.Input ℝ) ℝ)
  (mode : CombineChannelsResult) (queuesEmpty hrtfChanged : Bool) (weight : BlockParameter ℝ)

theorem Channel.process_crossfadeMode :
    (c.process cfg i b mode queuesEmpty hrtfChanged weight).crossfadeMode = mode ∧
      (c.process cfg i b mode queuesEmpty hrtfChanged weight).weight = weight.current := by
  unfold Channel.process
  split
  · exact ⟨rfl, rfl⟩
  · split
    · exact ⟨rfl, rfl⟩
    · exact ⟨rfl, rfl⟩

/-- Neither the pointers nor the nodes change. -/
theorem Channel.process_unchanged :
    (c.process cfg i b mode true false weight).output = c.output ∧
      (c.process cfg i b mode true false weight).temporaryHrtf = c.temporaryHrtf :=
  ⟨c.process_output b.input mode weight, rfl⟩

end

/-- What a source decides in a block. -/
noncomputable def Source.mode (s : Source (Conv.Input ℝ) ℝ) (b : Block (Conv.Input ℝ) ℝ) :
    CombineChannelsResult :=
  crossfadeMode s.left.output.queuesEmpty ((s.hrtfIndex.assign b.hrtfIndex).changed ||
    (s.interpFactor.assign b.interpFactor).changed) (s.weight.assign b.weight)

theorem Source.process_channel (cfg : Config ℝ) (s : Source (Conv.Input ℝ) ℝ)
    (b : Block (Conv.Input ℝ) ℝ) (ear : Fin 2) :
    (s.process cfg b).channel ear = (s.channel ear).process cfg ear b (s.mode b)
      s.left.output.queuesEmpty ((s.hrtfIndex.assign b.hrtfIndex).changed ||
        (s.interpFactor.assign b.interpFactor).changed) (s.weight.assign b.weight) := by
  fin_cases ear
  · rfl
  · rfl

/-- **One source in one block**, as one output hears it. -/
theorem Source.sound_value (s : Source (Conv.Input ℝ) ℝ) (b : Block (Conv.Input ℝ) ℝ)
    (ear : Fin 2) (samples : Samples n ℝ) {fade : Fade n ℝ} {j : Fin n}
    (hfade : fade.fadeOut j + fade.fadeIn j = 1) :
    ((s.sound fftw cfg b ear samples).contribution fftw cfg b.input).value fade j =
      (s.channel ear).convolve fftw cfg b.input s.weight.current j * fade.fadeOut j +
        ((s.process cfg b).channel ear).convolve fftw cfg b.input b.weight j * fade.fadeIn j := by
  have hfits : (s.mode b).Fits _ _ _ := crossfadeMode_fits _ _ _
  have hprocess := s.process_channel cfg b ear
  obtain ⟨hmode, hweight⟩ := (s.channel ear).process_crossfadeMode cfg ear b (s.mode b)
    s.left.output.queuesEmpty ((s.hrtfIndex.assign b.hrtfIndex).changed ||
      (s.interpFactor.assign b.interpFactor).changed) (s.weight.assign b.weight)
  rw [← hprocess] at hmode hweight
  refine Contribution.ofMode_value hfade (hmode.symm ▸ hfits) (fun h => ?_) ?_
    (fun hold => ?_) (fun hnew => ?_) fun hconstant => ?_
  · exact congrFun (if_neg h) j
  · show ((s.process cfg b).channel ear).convolve fftw cfg b.input
      ((s.process cfg b).channel ear).weight j = _
    rw [hweight]
    rfl
  · have hzero : s.weight.current = 0 := hold
    rw [hzero, Channel.convolve_zero]
  · have hzero : b.weight = 0 := hnew
    rw [hzero, Channel.convolve_zero]
  · have hconstant' : s.mode b = .constant := hmode.symm.trans hconstant
    rw [hconstant'] at hfits
    obtain ⟨hempty, hchanged, hsame, -⟩ := hfits
    have hweight' : s.weight.current = b.weight := hsame
    rw [hempty, hchanged] at hprocess
    obtain ⟨houtput, htemporary⟩ := (s.channel ear).process_unchanged cfg ear b (s.mode b)
      (s.weight.assign b.weight)
    rw [Channel.convolve, Channel.convolve, hprocess, houtput, htemporary, hweight']

/-- A source after a block. -/
noncomputable def Source.next (cfg : Config ℝ) (s : Source (Conv.Input ℝ) ℝ)
    (b : Block (Conv.Input ℝ) ℝ) : Source (Conv.Input ℝ) ℝ :=
  let s := s.process cfg b
  { s with
    left := { s.left with toSourceChannel := (s.left.combine b.input).1 }
    right := { s.right with toSourceChannel := (s.right.combine b.input).1 } }

theorem Source.next_convolve (s : Source (Conv.Input ℝ) ℝ) (b : Block (Conv.Input ℝ) ℝ)
    (ear : Fin 2) (input : Conv.Input ℝ) (weight : ℝ) :
    ((s.next cfg b).channel ear).convolve fftw cfg input weight =
      (((s.process cfg b).channel ear).convolve fftw cfg input weight : Samples n ℝ) := by
  have houtput : ((s.next cfg b).channel ear).output = ((s.process cfg b).channel ear).output := by
    fin_cases ear
    · exact SourceChannel.combine_output b.input
    · exact SourceChannel.combine_output b.input
  have htemporary : ((s.next cfg b).channel ear).temporaryHrtf =
      ((s.process cfg b).channel ear).temporaryHrtf := by
    fin_cases ear
    · rfl
    · rfl
  unfold Channel.convolve
  rw [houtput, htemporary]

/-! ## One block of the renderer -/

section
variable (fftw cfg) (angles : ℕ) (correction : ℝ)

theorem processOutput_eq (fade : Fade n ℝ) (inputs : Fin k → Conv.Input ℝ)
    (s : Fin k → Sound ℝ n) (b : Buffers n ℝ) :
    (processOutput fftw cfg inputs fade s b).1 = (fun i => (s i).next fftw cfg (inputs i)) ∧
      ∀ j, (processOutput fftw cfg inputs fade s b).2.out.buffer j =
        ∑ i, ((s i).contribution fftw cfg (inputs i)).value fade j := by
  obtain ⟨hmix, hchannels⟩ := (independent fftw cfg inputs).process fade (List.nodup_finRange k)
    s b
  refine ⟨funext fun i => ?_, fun j => ?_⟩
  · have hi := hchannels i
    rw [if_pos (List.mem_finRange i)] at hi
    exact hi
  · rw [Fin.sum_univ_def]
    exact hmix j

/-- **One block**: the sources go on as if they were alone, and an output is the sum of what they
contribute. -/
theorem Renderer.process_eq (fade : Fade n ℝ) (r : Renderer ℝ n k) (f : Frame ℝ k) :
    let block := blockOf fftw angles correction f r.inputs
    let r' := r.process fftw cfg angles correction fade f
    (∀ i, r'.inputs i = (block i).input) ∧ (∀ i, r'.sources i = (r.sources i).next cfg (block i)) ∧
      ∀ ear j, (r'.outputs ear).out.buffer j = ∑ i, (((r.sources i).sound fftw cfg (block i) ear
        (r.samples i ear)).contribution fftw cfg (block i).input).value fade j := by
  intro block r'
  have hout := fun ear => processOutput_eq fftw cfg fade (fun i => (block i).input)
    (fun i => (r.sources i).sound fftw cfg (block i) ear (r.samples i ear)) (r.outputs ear)
  refine ⟨fun i => rfl, fun i => ?_, fun ear => (hout ear).2⟩
  have hchannel : ∀ ear, ((processOutput fftw cfg (fun i => (block i).input) fade
      (fun i => (r.sources i).sound fftw cfg (block i) ear (r.samples i ear))
      (r.outputs ear)).1 i).channel =
        { ((r.sources i).process cfg (block i)).channel ear with
          toSourceChannel :=
            ((((r.sources i).process cfg (block i)).channel ear).combine (block i).input).1 } := by
    intro ear
    rw [(hout ear).1]
    exact Sound.next_channel (block i).input _
  have hsource : r'.sources i = { (r.sources i).process cfg (block i) with
      left := ((processOutput fftw cfg (fun i => (block i).input) fade
        (fun i => (r.sources i).sound fftw cfg (block i) 0 (r.samples i 0))
          (r.outputs 0)).1 i).channel
      right := ((processOutput fftw cfg (fun i => (block i).input) fade
        (fun i => (r.sources i).sound fftw cfg (block i) 1 (r.samples i 1))
          (r.outputs 1)).1 i).channel } := rfl
  rw [hsource, hchannel, hchannel]
  rfl

end

/-! ## Runs -/

section
variable (fftw cfg) (angles : ℕ) (correction : ℝ) (empty : Fin k → Conv.Input ℝ)

/-- The HRTF index and the interpolation factor of a source in a block. -/
noncomputable def settingOf (i : Fin k) (f : Frame ℝ k) : ℕ × ℝ :=
  (hrtfIndex angles f.state (f.data i),
    (factors f.state (f.data i) (f.weightingFactor correction i)).1)

/-- The weight of a source in a block. -/
noncomputable def weightOf (i : Fin k) (f : Frame ℝ k) : ℝ :=
  (factors f.state (f.data i) (f.weightingFactor correction i)).2

/-- What a source has computed for the blocks of `past`, which begins with the newest one. -/
noncomputable def blocks : List (Frame ℝ k) → Fin k → List (Block (Conv.Input ℝ) ℝ)
  | [], _ => []
  | f :: past, i =>
    blockOf fftw angles correction f (inputAfter fftw empty past) i :: blocks past i

/-- The state of a renderer after the blocks of `past`. -/
structure Renderer.Holds (r : Renderer ℝ n k) (past : List (Frame ℝ k)) : Prop where
  inputs : r.inputs = inputAfter fftw empty past
  recorded : ∀ i, Run.Recorded cfg ⟨r.sources i, none, none⟩
    (blocks fftw angles correction empty past i)
  weight : ∀ i, (r.sources i).weight.current = past.head?.elim 0 (weightOf correction i)

theorem blocks_parameters (past : List (Frame ℝ k)) (i : Fin k) :
    (blocks fftw angles correction empty past i).map parameters =
      past.map (settingOf angles correction i) := by
  induction past with
  | nil => rfl
  | cons f past ih =>
    rw [blocks, List.map_cons, ih]
    rfl

variable {fftw cfg angles correction empty}

theorem hrtfIndex_lt (hangles : 0 < angles) (state : RenderState ℝ) (data : SourceData ℝ) :
    hrtfIndex angles state data < angles := by
  obtain ⟨hnonneg, hlt⟩ := fwrap_mem (Nat.cast_pos.2 hangles : (0 : ℝ) < angles)
    (((data.position.sub (reference state).position).orientation.sub
      (reference state).orientation).azimuth * (angles : ℝ) / (360 : ℕ) + 1 / (2 : ℕ))
  exact (Nat.floor_lt hnonneg).2 hlt

theorem blocks_hrtfIndex_lt (hangles : 0 < angles) (past : List (Frame ℝ k)) (i : Fin k) :
    ∀ b ∈ blocks fftw angles correction empty past i, b.hrtfIndex < angles := by
  intro b hb
  have hmem := List.mem_map_of_mem (f := parameters) hb
  rw [blocks_parameters] at hmem
  obtain ⟨f, -, hf⟩ := List.mem_map.1 hmem
  have hindex : hrtfIndex angles f.state (f.data i) = b.hrtfIndex := congrArg Prod.fst hf
  rw [← hindex]
  exact hrtfIndex_lt hangles f.state (f.data i)

theorem Renderer.Holds.process {r : Renderer ℝ n k} {past : List (Frame ℝ k)}
    (h : r.Holds fftw cfg angles correction empty past) (hhrtfs : ∀ index, cfg.hrtfs index ≠ [])
    (hpartitions : 0 < cfg.partitions) (hangles : 0 < angles) (hcount : angles < 2 ^ 64)
    (fade : Fade n ℝ) (f : Frame ℝ k) :
    (r.process fftw cfg angles correction fade f).Holds fftw cfg angles correction empty
      (f :: past) := by
  obtain ⟨hinputs, hsources, -⟩ := r.process_eq fftw cfg angles correction fade f
  refine ⟨?_, fun i => ?_, fun i => ?_⟩
  · funext i
    rw [hinputs, h.inputs, inputAfter_cons]
    rfl
  · have hlt : hrtfIndex angles f.state (f.data i) < angles := hrtfIndex_lt hangles _ _
    have hvalid : (blockOf fftw angles correction f (inputAfter fftw empty past) i).hrtfIndex <
        2 ^ 64 - 1 := show hrtfIndex angles f.state (f.data i) < 2 ^ 64 - 1 by omega
    rw [hsources, h.inputs]
    obtain ⟨hleft, hright, hlast⟩ := (h.recorded i).step hhrtfs hpartitions hvalid rfl
    exact ⟨hleft, hright, hlast⟩
  · rw [hsources, h.inputs]
    rfl

theorem holds_start (outputs : Fin 2 → Buffers n ℝ) :
    (Renderer.start cfg empty outputs).Holds fftw cfg angles correction empty [] where
  inputs := rfl
  recorded _ := Run.recorded_start
  weight _ := rfl

/-- **A run.** -/
theorem holds_run (hhrtfs : ∀ index, cfg.hrtfs index ≠ []) (hpartitions : 0 < cfg.partitions)
    (hangles : 0 < angles) (hcount : angles < 2 ^ 64) (fade : Fade n ℝ)
    (outputs : Fin 2 → Buffers n ℝ) (fs : List (Frame ℝ k)) :
    (fs.foldl (Renderer.process fftw cfg angles correction fade)
      (.start cfg empty outputs)).Holds fftw cfg angles correction empty fs.reverse := by
  induction fs using List.reverseRecOn with
  | nil => exact holds_start outputs
  | append_singleton fs f ih =>
    rw [List.foldl_append, List.reverse_append]
    exact ih.process hhrtfs hpartitions hangles hcount fade f

end

/-! ## What is heard -/

section
variable {α : Type} [Scalar α] [DecidableEq α]

/-- The setting whose partitions are read for a setting of `past`: if it is interpolated, that is the
newest one that is. -/
def inEffect (past : List (ℕ × α)) (setting : ℕ × α) : ℕ × α :=
  if setting.2 = 0 then setting else (past.find? (·.2 ≠ 0)).getD setting

end

/-- The coefficients of a setting. -/
noncomputable def coefficients (channels : List (List ℝ)) (ear : ℕ) (setting : ℕ × ℝ) : List ℝ :=
  let hrtf := channels.getD (2 * setting.1 + ear) []
  if setting.2 = 0 then hrtf else interpolated setting.2 hrtf (impulse channels)

theorem maxElementLoop_lt {α : Type} (less : α → α → Bool) (xs : List α) {largest next : ℕ}
    (h : largest < next) (value : α) :
    maxElementLoop less largest value next xs < next + xs.length := by
  induction xs generalizing largest value next with
  | nil => exact h
  | cons x xs ih =>
    rw [maxElementLoop, List.length_cons, Nat.add_comm xs.length, ← Nat.add_assoc]
    split
    · exact ih (Nat.lt_succ_self next) x
    · exact ih (h.trans (Nat.lt_succ_self next)) value

theorem length_impulse {channels : List (List ℝ)} (hchannels : channels ≠ []) {size : ℕ}
    (hsize : 0 < size) (hlength : ∀ h ∈ channels, h.length = size) :
    (impulse channels).length ≤ size := by
  obtain ⟨h, rest, rfl⟩ := List.exists_cons_of_ne_nil hchannels
  have hfirst := hlength h List.mem_cons_self
  cases h with
  | nil =>
    rw [← hfirst] at hsize
    cases hsize
  | cons x xs =>
    have hlt := maxElementLoop_lt cmpAbs xs Nat.zero_lt_one x
    rw [List.length_cons] at hfirst
    simp only [impulse, List.headD_cons, maxElement, List.length_append, List.length_replicate,
      List.length_singleton]
    omega

theorem Config.load_cases {size : ℕ} {channels : List (List ℝ)}
    (h : Config.load fftw n size channels = some cfg) :
    channels.length % 2 = 0 ∧ cfg.partitions = minPartitions n size ∧
      (∀ index, cfg.hrtfs index = prepareFilter fftw n (channels.getD index [])
        (List.replicate (minPartitions n size) .new)) ∧
      cfg.neutralFilter = filter fftw n (impulse channels) 0 := by
  unfold Config.load at h
  split at h
  · cases h
  · rename_i heven
    cases h
    exact ⟨by omega, rfl, fun _ => rfl, rfl⟩

theorem contents_node (c : Channel (Conv.Input ℝ) ℝ) (ptr : NodePtr) :
    (cfg.node c.temporaryHrtf ptr).contents = c.contents cfg ptr := by
  have hgetD : ∀ (filter : List (FftNode ℝ)) (p : ℕ),
      (filter.getD p .new).contents = Conv.contents filter p := by
    intro filter p
    rw [List.getD_eq_getElem?_getD, Conv.contents]
    cases filter[p]? with
    | none => rfl
    | some node => rfl
  cases ptr with
  | empty => rfl
  | hrtf index partition => exact hgetD _ partition
  | temporary partition => exact hgetD _ partition

section
variable {past : List (Block (Conv.Input ℝ) ℝ)}

/-- The block whose filter is read for the block `b`. -/
noncomputable def blockInEffect (past : List (Block (Conv.Input ℝ) ℝ))
    (b : Block (Conv.Input ℝ) ℝ) : Block (Conv.Input ℝ) ℝ :=
  if b.interpFactor = 0 then b else (newestInterpolated past).getD b

theorem parameters_blockInEffect (b : Block (Conv.Input ℝ) ℝ) :
    parameters (blockInEffect past b) = inEffect (past.map parameters) (parameters b) := by
  unfold blockInEffect inEffect newestInterpolated
  rw [List.find?_map]
  split
  · rename_i h
    exact (if_pos h).symm
  · rename_i h
    rw [if_neg (show ¬(parameters b).2 = 0 from h)]
    exact (Option.getD_map parameters b _).symm

theorem blockInEffect_mem {b : Block (Conv.Input ℝ) ℝ} (hb : b ∈ past) :
    blockInEffect past b ∈ past := by
  unfold blockInEffect
  split
  · exact hb
  · cases hnewest : newestInterpolated past with
    | none => exact hb
    | some last => exact List.mem_of_find?_eq_some hnewest

/-- **What is at the pointers**: the partitions of the settings in effect. -/
theorem Channel.Recorded.contents {c : Channel (Conv.Input ℝ) ℝ} {i : ℕ}
    (h : c.Recorded cfg i past) (hvalid : ∀ b ∈ past, b.hrtfIndex < 2 ^ 64 - 1) {p : ℕ}
    (hp : p < cfg.partitions) : ∃ ptr, c.output.filterPtrs[p]? = some ptr ∧
      c.contents cfg ptr =
        past[p]?.bind fun b => Conv.contents (cfg.selected i (blockInEffect past b)) p := by
  refine ⟨_, filterPtrs_settings h.output (fun b hb => parameters_ne (hvalid b hb))
    (fun _ _ => filterPtrs_congr) hp, ?_⟩
  cases hb : past[p]? with
  | none => rfl
  | some b =>
    rw [Option.elim_some, Option.bind_some, blockInEffect]
    by_cases hfactor : b.interpFactor = 0
    · rw [if_pos hfactor, filterPtrs, if_pos hfactor, hrtfPtrs, Config.selected, if_pos hfactor,
        List.getElem?_map]
      rcases Nat.lt_or_ge p (cfg.hrtfs (2 * b.hrtfIndex + i)).length with hlt | hge
      · rw [List.getElem?_range hlt]
        rfl
      · rw [List.getElem?_eq_none (by simpa using hge), Conv.contents, List.getElem?_eq_none hge]
        rfl
    · obtain ⟨last, hlast⟩ : ∃ last, newestInterpolated past = some last := by
        rw [← Option.isSome_iff_exists, newestInterpolated, List.find?_isSome]
        exact ⟨b, List.mem_of_getElem? hb, by simpa using hfactor⟩
      rw [if_neg hfactor, filterPtrs, if_neg hfactor, List.getElem?_map, List.getElem?_range hp,
        hlast, Option.getD_some, ← h.temporary last hlast]
      rfl

variable {size : ℕ} {channels : List (List ℝ)} (hexact : fftw.IsExact) (hn : 0 < n)
  (h8 : n % 8 = 0) (hsize : 0 < size) (hchannels : channels ≠ [])
  (hlength : ∀ h ∈ channels, h.length = size) (hload : Config.load fftw n size channels = some cfg)

include hlength in
theorem length_coefficients {ear : ℕ} {setting : ℕ × ℝ}
    (hindex : 2 * setting.1 + ear < channels.length) :
    (coefficients channels ear setting).length = size := by
  unfold coefficients
  rw [List.getD_eq_getElem _ _ hindex]
  split
  · exact hlength _ (List.getElem_mem hindex)
  · rw [interpolated, List.length_mapIdx]
    exact hlength _ (List.getElem_mem hindex)

include hexact hn h8 hsize hchannels hlength hload in
/-- The partitions of a setting are the spectra of its coefficients. -/
theorem contents_selected {ear : ℕ} {b : Block (Conv.Input ℝ) ℝ}
    (hindex : 2 * b.hrtfIndex + ear < channels.length) {p : ℕ} (hp : p < minPartitions n size) :
    Conv.contents (cfg.selected ear b) p =
      spectrum fftw n ((coefficients channels ear (parameters b)).drop (p * n)) := by
  obtain ⟨-, hpartitions, hhrtfs, hneutral⟩ := Config.load_cases hload
  have hhrtf : (channels.getD (2 * b.hrtfIndex + ear) []).length = size := by
    rw [List.getD_eq_getElem _ _ hindex]
    exact hlength _ (List.getElem_mem hindex)
  unfold Config.selected coefficients
  rw [hhrtfs]
  by_cases hfactor : b.interpFactor = 0
  · rw [if_pos hfactor, if_pos (show (parameters b).2 = 0 from hfactor),
      contents_prepareFilter hn, if_pos hp]
    rfl
  · rw [if_neg hfactor, if_neg (show ¬(parameters b).2 = 0 from hfactor), hpartitions, hneutral]
    exact contents_interpolated hexact hn h8 b.interpFactor
      ((length_impulse hchannels hsize hlength).trans hhrtf.ge)
      ((minPartitions_pred_mul_lt hn hsize).trans_le hhrtf.ge) hp

include hexact hn h8 hsize hchannels hlength hload in
/-- **A channel** after the blocks of `past`. -/
theorem Channel.Recorded.convolve {c : Channel (Conv.Input ℝ) ℝ} {ear : Fin 2}
    (h : c.Recorded cfg ear past) (hvalid : ∀ b ∈ past, b.hrtfIndex < channels.length / 2)
    (hcount : channels.length / 2 < 2 ^ 64) {input : Conv.Input ℝ} {xs : List (Buffer ℝ)}
    (hinput : Input.Holds n input xs) (hpartitions : input.partitions = minPartitions n size)
    (weight : ℝ) (j : Fin n) :
    c.convolve fftw cfg input weight j = weight * lastBlock n
      ((mixed n (minPartitions n size) ((past.map parameters).map fun setting =>
        coefficients channels ear (inEffect (past.map parameters) setting))).take
          (sounding n xs * n)) xs.reverse j := by
  obtain ⟨-, hcfg, -, -⟩ := Config.load_cases hload
  have hindex : ∀ b ∈ past, 2 * (blockInEffect past b).hrtfIndex + ear < channels.length := by
    intro b hb
    have hlt := hvalid _ (blockInEffect_mem hb)
    have hear := ear.isLt
    omega
  have hfilters : ((past.map parameters).map fun setting =>
      coefficients channels ear (inEffect (past.map parameters) setting)) =
        past.map fun b => coefficients channels ear (parameters (blockInEffect past b)) := by
    rw [List.map_map]
    exact List.map_congr_left fun b _ => by rw [parameters_blockInEffect]; rfl
  have hptrs : c.output.filterPtrs.length = cfg.partitions := by
    rw [h.output.filterPtrs, List.length_map, List.length_range]
  rw [hfilters, Channel.convolve, convolve_mixed hexact hn h8 hinput ?_ ?_ ?_ weight j.isLt,
    hpartitions]
  · rw [List.length_map, hptrs, hcfg, hpartitions]
  · intro p hp
    rw [hpartitions] at hp
    obtain ⟨ptr, hptr, hcontents⟩ :=
      h.contents (fun b hb => by have := hvalid b hb; omega) (hcfg ▸ hp)
    rw [Conv.contents, List.getElem?_map, hptr, Option.map_some, Option.bind_some, contents_node,
      hcontents, List.getElem?_map]
    cases hb : past[p]? with
    | none => rfl
    | some b =>
      rw [Option.bind_some, Option.map_some, Option.bind_some]
      exact contents_selected hexact hn h8 hsize hchannels hlength hload
        (hindex b (List.mem_of_getElem? hb)) hp
  · intro h' hh'
    obtain ⟨b, hb, rfl⟩ := List.mem_map.1 hh'
    rw [length_coefficients hlength (hindex b hb), hpartitions]
    exact minPartitions_pred_mul_lt hn hsize

end

/-! ## The output -/

/-- What is heard of a source in the newest block of `fs`, with the weight and the filters that it
has after the blocks of `played`: the convolution of its signal with the mixed filter of the settings
in effect, up to the newest silence. -/
noncomputable def heardWith (n : ℕ) (correction : ℝ) (size : ℕ) (channels : List (List ℝ))
    (ear : Fin 2) (i : Fin k) (played fs : List (Frame ℝ k)) (j : ℕ) : ℝ :=
  let xs := fs.map fun f => f.samples i
  let settings := played.reverse.map (settingOf (channels.length / 2) correction i)
  let filters := settings.map fun setting => coefficients channels ear (inEffect settings setting)
  played.getLast?.elim 0 (weightOf correction i) *
    lastBlock n ((mixed n (minPartitions n size) filters).take (sounding n xs.reverse * n)) xs j

section
variable {correction : ℝ} {size : ℕ} {channels : List (List ℝ)} {empty : Conv.Input ℝ}
  (hexact : fftw.IsExact) (hn : 0 < n) (hsize : 0 < size) (hchannels : channels ≠ [])
  (hcount : channels.length < 2 ^ 31) (hlength : ∀ h ∈ channels, h.length = size)
  (hload : Config.load fftw n size channels = some cfg)
  (hinput : Conv.Input.new n (minPartitions n size) = some empty)

include hexact hn hsize hchannels hcount hlength hload hinput

/-- What a channel would put out in the newest block of `fs`, with its state after `played`. -/
theorem Renderer.Holds.convolve {r : Renderer ℝ n k} {played : List (Frame ℝ k)}
    (h : r.Holds fftw cfg (channels.length / 2) correction (fun _ => empty) played.reverse)
    (ear : Fin 2) (i : Fin k) (fs : List (Frame ℝ k)) (j : Fin n) :
    ((r.sources i).channel ear).convolve fftw cfg (inputAfter fftw (fun _ => empty) fs.reverse i)
        (r.sources i).weight.current j =
      heardWith n correction size channels ear i played fs j := by
  have hangles : 0 < channels.length / 2 := by
    obtain ⟨heven, -⟩ := Config.load_cases hload
    have := List.length_pos_iff.2 hchannels
    omega
  obtain ⟨hspectra, h8, hpartitions⟩ := Input.addBlocks_hold hexact hn hinput
    (fs.map fun f => f.samples i)
  have hsame : inputAfter fftw (fun _ => empty) fs.reverse i =
      (fs.map fun f => f.samples i).foldl (Input.addBlock fftw) empty := by
    rw [inputAfter, List.reverse_reverse]
  rw [← hsame] at hspectra hpartitions
  have hchannel : ((r.sources i).channel ear).Recorded cfg ear
      (blocks fftw (channels.length / 2) correction (fun _ => empty) played.reverse i) := by
    fin_cases ear
    · exact (h.recorded i).left
    · exact (h.recorded i).right
  rw [hchannel.convolve hexact hn h8 hsize hchannels hlength hload
    (blocks_hrtfIndex_lt hangles _ i) (by omega) hspectra hpartitions, h.weight,
    blocks_parameters, List.head?_reverse, List.reverse_reverse]
  rfl

/-- **The output of the binaural renderer.** -/
theorem output_hrtfs (outputs : Fin 2 → Buffers n ℝ) (fs : List (Frame ℝ k)) (f : Frame ℝ k)
    (ear : Fin 2) (j : Fin n) :
    let r := (fs ++ [f]).foldl (Renderer.process fftw cfg (channels.length / 2) correction
      (raisedCosineFade n)) (.start cfg (fun _ => empty) outputs)
    (r.outputs ear).out.buffer j = ∑ i,
      (heardWith n correction size channels ear i fs (fs ++ [f]) j *
          (raisedCosineFade n).fadeOut j +
        heardWith n correction size channels ear i (fs ++ [f]) (fs ++ [f]) j *
          (raisedCosineFade n).fadeIn j) := by
  intro r
  let angles := channels.length / 2
  let r₀ := fs.foldl (Renderer.process fftw cfg angles correction (raisedCosineFade n))
    (.start cfg (fun _ => empty) outputs)
  have hr : r = r₀.process fftw cfg angles correction (raisedCosineFade n) f := List.foldl_concat ..
  obtain ⟨heven, hcfg, hhrtfs, -⟩ := Config.load_cases hload
  have hpartitions : 0 < minPartitions n size := Nat.div_pos (by omega) hn
  have hne : ∀ index, cfg.hrtfs index ≠ [] := by
    intro index
    rw [hhrtfs, ← List.length_pos_iff, length_prepareFilter]
    exact hpartitions
  have hangles : 0 < angles := by
    have := List.length_pos_iff.2 hchannels
    omega
  have hrun := fun fs => (holds_run hne (hcfg ▸ hpartitions) hangles (by omega)
    (raisedCosineFade n) outputs fs : Renderer.Holds fftw cfg angles correction
      (fun _ : Fin k => empty) _ fs.reverse)
  have hbefore : r₀.Holds fftw cfg angles correction (fun _ => empty) fs.reverse := hrun fs
  have hafter : r.Holds fftw cfg angles correction (fun _ => empty) (fs ++ [f]).reverse :=
    hrun (fs ++ [f])
  obtain ⟨-, hsources, hout⟩ := r₀.process_eq fftw cfg angles correction (raisedCosineFade n) f
  rw [hr, hout]
  refine Finset.sum_congr rfl fun i _ => ?_
  have hblock : (blockOf fftw angles correction f r₀.inputs i).input =
      inputAfter fftw (fun _ => empty) (fs ++ [f]).reverse i := by
    rw [List.reverse_append, List.reverse_singleton, List.singleton_append, inputAfter_cons,
      hbefore.inputs]
    rfl
  have hold := hbefore.convolve hexact hn hsize hchannels hcount hlength hload hinput ear i
    (fs ++ [f]) j
  have hnew := hafter.convolve hexact hn hsize hchannels hcount hlength hload hinput ear i
    (fs ++ [f]) j
  rw [hr, hsources, Source.next_convolve] at hnew
  rw [Source.sound_value _ _ _ _ (raisedCosineFade_add j), ← hold, ← hnew, ← hblock]
  rfl

end

/-- Two directions, with impulse responses of one sample. -/
theorem output_hrtfs_impulses : ∃ (cfg : Config ℝ) (empty : Conv.Input ℝ),
    Config.load Fftw.exact 8 1 [[1], [2], [3], [4]] = some cfg ∧
    Conv.Input.new 8 (minPartitions 8 1) = some empty ∧
    ∀ (outputs : Fin 2 → Buffers 8 ℝ) (fs : List (Frame ℝ 1)) (f : Frame ℝ 1) (ear : Fin 2)
      (j : Fin 8),
      let r := (fs ++ [f]).foldl (Renderer.process Fftw.exact cfg 2 1 (raisedCosineFade 8))
        (.start cfg (fun _ => empty) outputs)
      (r.outputs ear).out.buffer j = ∑ i,
        (heardWith 8 1 1 [[1], [2], [3], [4]] ear i fs (fs ++ [f]) j *
            (raisedCosineFade 8).fadeOut j +
          heardWith 8 1 1 [[1], [2], [3], [4]] ear i (fs ++ [f]) (fs ++ [f]) j *
            (raisedCosineFade 8).fadeIn j) := by
  refine ⟨_, _, rfl, rfl, fun outputs => ?_⟩
  exact @output_hrtfs 8 1 Fftw.exact _ 1 1 [[1], [2], [3], [4]] _ Fftw.exact_isExact (by decide)
    (by decide) (by simp) (by norm_num)
    (fun h hh => by simp at hh; rcases hh with rfl | rfl | rfl | rfl <;> rfl) rfl rfl outputs

end Ssr.Binaural
