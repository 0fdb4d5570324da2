import Ssr.Apf.Proof.BlockDelayLine
import Ssr.Apf.Proof.CombineChannels
import Ssr.Apf.Proof.Fade
import Ssr.Lib.Ramp
import Ssr.Renderer.Proof.WfsDrive
import Ssr.Renderer.WfsRenderer

/-!
# The output of wave field synthesis

Whatever `select` decides for a channel, in a block the signal with the old weight and delay is faded
out and the signal with the new weight and delay is faded in; where nothing has changed, the two
together are the signal without a fade (`Channel.value`). So an output is a sum of delayed signals,
sample by sample (`output_eq`). The channels of an output are independent, although the function
object remembers the channel that it has selected.
-/

set_option autoImplicit false

namespace Ssr.WfsRenderer

open Apf CombineChannels Lib

variable {T : Type} [Scalar T] [LinearOrder T] [CMath T] {n k : ℕ}
  (r : WfsRenderer T) (state : RenderState T) (out : LoudspeakerOutput T)

/-! ## One channel -/

section
variable (channel : SourceChannel T) (l : NonCausalBlockDelayLine T) (delay : ℤ)

omit [Scalar T] [LinearOrder T] [CMath T]

@[simp] theorem readAt_weightingFactor :
    (channel.readAt l delay).weightingFactor = channel.weightingFactor := by
  rw [SourceChannel.readAt]

@[simp] theorem readAt_delay : (channel.readAt l delay).delay = channel.delay := by
  rw [SourceChannel.readAt]

@[simp] theorem update_eq : channel.update l = channel.readAt l channel.delay.current := rfl

end

/-- A channel after its block. -/
def SourceChannel.next (channel : SourceChannel T) (source : Source T) : SourceChannel T :=
  let (channel, mode) := channel.select r state out source
  if mode = .change ∨ mode = .fadeIn then channel.update source.delayline else channel

/-- What a channel contributes to the mix. -/
def SourceChannel.contribution (channel : SourceChannel T) (source : Source T) : Contribution n T :=
  let (channel, mode) := channel.select r state out source
  let l := source.delayline
  let old : Samples n T := fun j => channel.samples l j * channel.weightingFactor.old
  let new (channel : SourceChannel T) : Samples n T :=
    fun j => channel.samples l j * channel.weightingFactor.current
  match mode with
  | .nothing => { constant := none, old := none, new := none }
  | .constant => { constant := some (new channel), old := none, new := none }
  | .change => { constant := none, old := some old, new := some (new (channel.update l)) }
  | .fadeIn => { constant := none, old := none, new := some (new (channel.update l)) }
  | .fadeOut => { constant := none, old := some old, new := none }

variable (sources : Fin k → Source T)

/-- The signals that `crossfade` takes. -/
def signals : Signals (Channels T k) (Fin k) n T :=
  { samples := fun c i j => (c.channels i).samples (sources i).delayline j * c.function.newFactor
    fadeOutSamples := fun c i j =>
      (c.channels i).samples (sources i).delayline j * c.function.oldFactor }

/-- The channels of an output are independent. -/
theorem independent : Independent (r.functionObject state out sources) (signals sources (n := n))
    Channels.channels (fun i channel => channel.contribution r state out (sources i))
    fun i channel => channel.next r state out (sources i) := by
  have hitem : ∀ (c : Channels T k) (i : Fin k),
      (contribution (r.functionObject state out sources) (signals sources (n := n)) c i).2 =
          (c.channels i).contribution r state out (sources i) ∧
        ∀ j, (contribution (r.functionObject state out sources)
            (signals sources (n := n)) c i).1.channels j =
          if j = i then (c.channels i).next r state out (sources i) else c.channels j := by
    intro c i
    unfold contribution SourceChannel.contribution SourceChannel.next functionObject select
    dsimp only
    generalize (c.channels i).select r state out (sources i) = p
    obtain ⟨channel, mode⟩ := p
    cases mode with
    | nothing => simp [Channels.set]
    | constant => simp [Channels.set, signals]
    | change => simp +contextual [Channels.set, signals, update]
    | fadeIn => simp +contextual [Channels.set, signals, update]
    | fadeOut => simp [Channels.set, signals]
  exact ⟨fun c i => (hitem c i).1, fun c i => (hitem c i).2⟩

variable {state out sources} in
/-- **One block** of an output. -/
theorem processOutput_eq (fade : Fade n T) {items : List (Fin k)} (hnodup : items.Nodup)
    (hasserted : ∀ i ∈ items, Asserted state out (sources i)) (c : Fin k → SourceChannel T)
    (b : Buffers n T) :
    ∃ b', r.processOutput state out sources fade items c b = some (b', fun i =>
        if i ∈ items then (c i).next r state out (sources i) else c i) ∧
      ∀ j, b'.out.buffer j = (items.map fun i =>
        ((c i).contribution r state out (sources i)).value fade j).sum := by
  obtain ⟨hmix, hchannels⟩ := (r.independent state out sources).process fade hnodup
    { function := .new, channels := c } b
  refine ⟨_, ?_, hmix⟩
  rw [processOutput, if_pos hasserted, ← funext hchannels]
  rfl

/-! ## The delay lines -/

section
omit [Scalar T] [LinearOrder T] [CMath T]
variable [Inhabited T]

attribute [local irreducible] circularAdd toDifference toSize

/-- What a source is, and what its input writes into its delay line, in each block. -/
structure History (T : Type) where
  data : ℕ → SourceData T
  weightingFactor : ℕ → BlockParameter T
  blocks : ℕ → ℕ → T

/-- The blocks as one signal. -/
def History.signal (n : ℕ) (h : History T) (s : ℤ) : T :=
  if s < 0 then default else h.blocks (s.toNat / n) (s.toNat % n)

/-- The delay line after `t` blocks. -/
def History.delayline (l : NonCausalBlockDelayLine T) (h : History T) (t : ℕ) :
    NonCausalBlockDelayLine T :=
  ((List.range t).map h.blocks).foldl NonCausalBlockDelayLine.writeBlock l

theorem sampleAt_blocks (h : History T) {t : ℕ} {s : ℤ} (hs : s < t * n) :
    sampleAt n ((List.range t).map h.blocks) s = h.signal n s := by
  unfold sampleAt History.signal
  split
  · rfl
  · have hlt : s.toNat / n < t := by
      refine Nat.div_lt_of_lt_mul ?_
      rw [Nat.mul_comm, ← Int.ofNat_lt]
      push_cast
      omega
    rw [List.getD_eq_getElem _ _ (by simpa using hlt)]
    simp

/-- A delay line that has been constructed with `initialDelay`. -/
structure Delays (n initialDelay : ℕ) (l : NonCausalBlockDelayLine T) : Prop where
  readsRight : l.ReadsRight initialDelay
  blockSize : l.blockSize = n
  /-- No delay is less than the opposite of the initial delay. -/
  least : ∀ delay, l.delayIsValid delay = true → -initialDelay ≤ delay

theorem delays_new [Nontrivial T] {maxSize maxDelay initialDelay : ℕ} {l : NonCausalBlockDelayLine T}
    (hmax : maxSize ≤ 2 ^ 62) (hmaxDelay : maxDelay < 2 ^ 64) (hinitial : initialDelay < 2 ^ 64)
    (hfits : maxDelay + initialDelay + 2 * n - 1 < 2 ^ 64)
    (h : NonCausalBlockDelayLine.new maxSize n maxDelay initialDelay = some l) :
    Delays n initialDelay l := by
  obtain ⟨a, ha⟩ := exists_ne (default : T)
  have hright :=
    (NonCausalBlockDelayLine.readsRight_iff hmax hmaxDelay hinitial ha h).2 (.inl hfits)
  obtain ⟨hbase, hl⟩ := NonCausalBlockDelayLine.new_cases h
  obtain ⟨hpos, -, -, hle, hblockSize, -, -⟩ := BlockDelayLine.new_cases hbase
  have hblock : n < 2 ^ 63 := by
    by_contra hlarge
    exact NonCausalBlockDelayLine.not_readsRight_of_large hmax (not_lt.1 hlarge) hinitial h hright
  have hsmall : initialDelay ≤ 2 ^ 63 := by
    have hsize := (BlockDelayLine.new_spec hmax hblock hbase).2.1
    have hadd : add64 maxDelay initialDelay = (maxDelay + initialDelay) % 2 ^ 64 := rfl
    rw [hadd, Nat.mod_eq_of_lt (by omega)] at hsize
    have := hsize hfits
    omega
  have hleast : NonCausalBlockDelayLine.leastDelay initialDelay = -initialDelay := if_pos hsmall
  refine ⟨hright, hblockSize, fun delay hvalid => ?_⟩
  by_contra hlt
  rw [NonCausalBlockDelayLine.delayIsValid_eq_false hinitial hl (by omega)] at hvalid
  cases hvalid

omit [Inhabited T] in
/-- The range of valid delays does not change. -/
theorem delayIsValid_delayline (l : NonCausalBlockDelayLine T) (h : History T) (t : ℕ) (delay : ℤ) :
    (h.delayline l t).delayIsValid delay = l.delayIsValid delay := by
  have hwrite : ∀ (l : NonCausalBlockDelayLine T) (x : ℕ → T),
      (l.writeBlock x).delayIsValid delay = l.delayIsValid delay := by
    intro l x
    have hmaxDelay := BlockDelayLine.writeBlock_maxDelay (l := l.toBlockDelayLine) (x := x)
    unfold NonCausalBlockDelayLine.delayIsValid BlockDelayLine.delayIsValid
    rw [NonCausalBlockDelayLine.writeBlock, hmaxDelay]
  rw [History.delayline]
  induction (List.range t).map h.blocks generalizing l with
  | nil => rfl
  | cons x blocks ih => rw [List.foldl_cons, ih, hwrite]

/-- **What a channel reads**: the signal, with all delays. -/
theorem samples_readAt [Zero T] {initialDelay : ℕ} {l : NonCausalBlockDelayLine T}
    (hl : Delays n initialDelay l) (h : History T) (t : ℕ) {delay : ℤ} (hge : -2 ^ 63 ≤ delay)
    (hlt : delay < 2 ^ 63) (hvalid : l.delayIsValid delay = true) (channel : SourceChannel T)
    (j : Fin n) :
    (channel.readAt (h.delayline l (t + 1)) delay).samples (h.delayline l (t + 1)) j =
      h.signal n (t * n + j - initialDelay - delay) := by
  obtain ⟨hsome, hread⟩ := hl.readsRight ((List.range (t + 1)).map h.blocks) delay hge hlt
  rw [← History.delayline, delayIsValid_delayline, hvalid, Option.isSome_iff_exists] at hsome
  obtain ⟨out, hout⟩ := hsome
  have hsamples := hread out hout
  have hleast := hl.least delay hvalid
  -- the circulators of the channel are those of `read_block`
  have hcopy : (channel.readAt (h.delayline l (t + 1)) delay).samples (h.delayline l (t + 1)) j =
      out.getD j 0 := by
    generalize h.delayline l (t + 1) = l' at hout
    unfold NonCausalBlockDelayLine.readBlock BlockDelayLine.readBlock at hout
    split at hout
    · cases hout
    · split at hout
      · cases hout
      · rw [← Option.some.inj hout]
        rfl
  rw [hcopy, hsamples, samplesAt, hl.blockSize, List.getD_eq_getElem _ _ (by simp)]
  simp only [List.getElem_map, List.getElem_range, List.length_map, List.length_range]
  have hj : (j : ℤ) < n := by exact_mod_cast j.isLt
  have hstart : ((t + 1 : ℕ) - 1 : ℤ) * n - initialDelay - delay + (j : ℕ) =
      t * n + j - initialDelay - delay := by
    push_cast
    ring
  have hwritten : (t * n + j - initialDelay - delay : ℤ) < (t + 1 : ℕ) * n := by
    push_cast
    linarith
  rw [hstart, sampleAt_blocks h hwritten]

end

/-! ## The fades -/

/-- A channel that has been given the weight and the delay of its block. -/
def SourceChannel.store (channel : SourceChannel T) (stored : T × ℤ) : SourceChannel T :=
  { channel with
    delay := channel.delay.assign stored.2
    weightingFactor := channel.weightingFactor.assign stored.1 }

section
variable (channel : SourceChannel T) (stored : T × ℤ)

omit [Scalar T] [LinearOrder T] [CMath T]

@[simp] theorem store_weightingFactor_current :
    (channel.store stored).weightingFactor.current = stored.1 := rfl

@[simp] theorem store_weightingFactor_old :
    (channel.store stored).weightingFactor.old = channel.weightingFactor.current := rfl

@[simp] theorem store_delay_current : (channel.store stored).delay.current = stored.2 := rfl

@[simp] theorem store_delay_old :
    (channel.store stored).delay.old = channel.delay.current := rfl

end

theorem select_eq (channel : SourceChannel T) (source : Source T) :
    channel.select r state out source =
      let stored := channel.store (r.stored state out source)
      if crossfadeMode stored = .nothing ∨ crossfadeMode stored = .fadeIn then
        (stored, crossfadeMode stored)
      else (stored.readAt source.delayline channel.delay.current, crossfadeMode stored) := by
  rw [SourceChannel.select]
  rfl

omit [CMath T] in
theorem crossfadeMode_store (channel : SourceChannel T) (stored : T × ℤ) :
    crossfadeMode (channel.store stored) =
      if channel.weightingFactor.current = 0 ∧ stored.1 = 0 then .nothing
      else if channel.weightingFactor.current = stored.1 ∧ stored.2 = channel.delay.current then
        .constant
      else if channel.weightingFactor.current = 0 then .fadeIn
      else if stored.1 = 0 then .fadeOut
      else .change := by
  have hchanged : (!(channel.store stored).delay.changed) = true ↔
      stored.2 = channel.delay.current := by
    show (!decide (stored.2 ≠ channel.delay.current)) = true ↔ _
    simp
  rw [crossfadeMode]
  simp only [hchanged]
  rfl

/-- A channel keeps what it has stored. -/
theorem next_current (channel : SourceChannel T) (source : Source T) :
    (channel.next r state out source).weightingFactor.current = (r.stored state out source).1 ∧
      (channel.next r state out source).delay.current = (r.stored state out source).2 := by
  rw [SourceChannel.next, select_eq]
  dsimp only
  generalize crossfadeMode (channel.store (r.stored state out source)) = mode
  cases mode with
  | nothing => exact ⟨rfl, rfl⟩
  | constant => simp [SourceChannel.store, BlockParameter.assign]
  | change => simp [SourceChannel.store, BlockParameter.assign]
  | fadeIn => simp [SourceChannel.store, BlockParameter.assign]
  | fadeOut => simp [SourceChannel.store, BlockParameter.assign]

/-- **One channel in one block**: from the old weight and delay to the new ones, whatever the mode. -/
theorem contribution_value {fade : Fade n T} (hfade : ∀ j, fade.fadeOut j + fade.fadeIn j = 1)
    (channel : SourceChannel T) (source : Source T) (x : ℤ → Samples n T)
    (hold : channel.weightingFactor.current ≠ 0 → ∀ c : SourceChannel T,
      (c.readAt source.delayline channel.delay.current).samples source.delayline =
        x channel.delay.current)
    (hnew : (r.stored state out source).1 ≠ 0 → ∀ c : SourceChannel T,
      (c.readAt source.delayline (r.stored state out source).2).samples source.delayline =
        x (r.stored state out source).2) (j : Fin n) :
    (channel.contribution r state out source).value fade j =
      x channel.delay.current j * channel.weightingFactor.current * fade.fadeOut j +
        x (r.stored state out source).2 j * (r.stored state out source).1 * fade.fadeIn j := by
  have hmode := crossfadeMode_store channel (r.stored state out source)
  rw [SourceChannel.contribution, select_eq]
  generalize r.stored state out source = stored at hnew hmode ⊢
  by_cases hnothing : channel.weightingFactor.current = 0 ∧ stored.1 = 0
  · rw [if_pos hnothing] at hmode
    simp [hmode, Contribution.value, hnothing.1, hnothing.2]
  rw [if_neg hnothing] at hmode
  by_cases hconstant : channel.weightingFactor.current = stored.1 ∧
      stored.2 = channel.delay.current
  · rw [if_pos hconstant] at hmode
    obtain ⟨hweight, hdelay⟩ := hconstant
    have hne : channel.weightingFactor.current ≠ 0 := fun h => hnothing ⟨h, hweight ▸ h⟩
    simp only [hmode, Contribution.value, hdelay, hweight]
    -- both fades together
    rw [← mul_add, hfade, mul_one]
    simp [hold hne]
  rw [if_neg hconstant] at hmode
  by_cases hfadeIn : channel.weightingFactor.current = 0
  · rw [if_pos hfadeIn] at hmode
    have hne : stored.1 ≠ 0 := fun h => hnothing ⟨hfadeIn, h⟩
    simp [hmode, Contribution.value, hnew hne, hfadeIn]
  rw [if_neg hfadeIn] at hmode
  by_cases hfadeOut : stored.1 = 0
  · rw [if_pos hfadeOut] at hmode
    simp [hmode, Contribution.value, hold hfadeIn, hfadeOut]
  rw [if_neg hfadeOut] at hmode
  simp [hmode, Contribution.value, hold hfadeIn, hnew hfadeOut]

/-! ## Runs -/

/-- What a renderer is given in each block; no source comes or goes. -/
structure Scene (T : Type) (k : ℕ) where
  states : ℕ → RenderState T
  outputs : List (LoudspeakerOutput T)
  /-- the delay line of each input at first -/
  delayline : NonCausalBlockDelayLine T
  sources : Fin k → History T

/-- A source in block `t`, after the inputs and the sources have been processed. -/
def Scene.sourceAt (scene : Scene T k) (t : ℕ) (i : Fin k) : Source T :=
  let source := scene.sources i
  { data := source.data t
    weightingFactor := source.weightingFactor t
    focused := focused (scene.states t) scene.outputs (source.data t)
    delayline := source.delayline scene.delayline (t + 1) }

section
variable (scene : Scene T k)

/-- The buffers and the channels of an output after `t` blocks. -/
def outputAfter (fade : Fade n T) (b : Buffers n T) :
    ℕ → Option (Buffers n T × (Fin k → SourceChannel T))
  | 0 => some (b, fun _ => .new)
  | t + 1 => (outputAfter fade b t).bind fun (b, c) =>
      r.processOutput (scene.states t) out (scene.sourceAt t) fade (List.finRange k) c b

/-- The weight and the delay of a source after `t` blocks. -/
def driven (i : Fin k) : ℕ → T × ℤ
  | 0 => (0, 0)
  | t + 1 => r.stored (scene.states t) out (scene.sourceAt t i)

/-- The channels hold the weights and the delays. -/
def Driven (t : ℕ) (c : Fin k → SourceChannel T) : Prop :=
  ∀ i, (c i).weightingFactor.current = (r.driven out scene i t).1 ∧
    (c i).delay.current = (r.driven out scene i t).2

/-- A delay that is used is an `int`, and it is valid. -/
theorem driven_valid {i : Fin k} {t : ℕ} (hne : (r.driven out scene i t).1 ≠ 0) :
    -2 ^ 63 ≤ (r.driven out scene i t).2 ∧ (r.driven out scene i t).2 < 2 ^ 63 ∧
      scene.delayline.delayIsValid (r.driven out scene i t).2 = true := by
  cases t with
  | zero => exact absurd rfl hne
  | succ t =>
    rw [driven, stored] at hne ⊢
    dsimp only at hne ⊢
    split at hne
    next hvalid =>
      rw [if_pos hvalid]
      refine ⟨?_, ?_, ?_⟩
      · exact le_trans (by norm_num) (Int32.le_toInt _)
      · exact lt_trans (Int32.toInt_lt _) (by norm_num)
      · rwa [Scene.sourceAt, delayIsValid_delayline] at hvalid
    next => exact absurd rfl hne

variable [Inhabited T]

/-- Sample `s` of a source, as the output has it with the weight and the delay after `t` blocks. -/
def arriving (n initialDelay : ℕ) (i : Fin k) (t : ℕ) (s : ℤ) : T :=
  let (weightingFactor, delay) := r.driven out scene i t
  (scene.sources i).signal n (s - initialDelay - delay) * weightingFactor

variable {scene} {fade : Fade n T} {initialDelay : ℕ}

/-- What a channel reads in block `t` with a weight that it has then, or had before. -/
theorem samples_driven (hl : Delays n initialDelay scene.delayline) (t t' : ℕ) {i : Fin k}
    (hne : (r.driven out scene i t').1 ≠ 0) (channel : SourceChannel T) :
    (channel.readAt (scene.sourceAt t i).delayline (r.driven out scene i t').2).samples
        (scene.sourceAt t i).delayline = fun j : Fin n =>
      (scene.sources i).signal n (t * n + j - initialDelay - (r.driven out scene i t').2) := by
  obtain ⟨hge, hlt, hvalid⟩ := r.driven_valid out scene hne
  funext j
  exact samples_readAt hl (scene.sources i) t hge hlt hvalid channel j

/-- **One block**: the channels are faded over from what they hold to what they are given. -/
theorem output_step (hl : Delays n initialDelay scene.delayline)
    (hfade : ∀ j, fade.fadeOut j + fade.fadeIn j = 1) {t : ℕ}
    (hasserted : ∀ i, Asserted (scene.states t) out (scene.sourceAt t i))
    {c : Fin k → SourceChannel T} (hc : r.Driven out scene t c) (b : Buffers n T) :
    ∃ b' c', r.processOutput (scene.states t) out (scene.sourceAt t) fade (List.finRange k) c b =
        some (b', c') ∧ r.Driven out scene (t + 1) c' ∧
      ∀ j, b'.out.buffer j = ∑ i,
        (r.arriving out scene n initialDelay i t (t * n + j) * fade.fadeOut j +
          r.arriving out scene n initialDelay i (t + 1) (t * n + j) * fade.fadeIn j) := by
  obtain ⟨b', hprocess, hmix⟩ := r.processOutput_eq fade (List.nodup_finRange k)
    (fun i _ => hasserted i) c b
  refine ⟨b', _, hprocess, fun i => ?_, fun j => ?_⟩
  · have hnext := next_current r (scene.states t) out (c i) (scene.sourceAt t i)
    simp only [List.mem_finRange, if_true]
    exact hnext
  · rw [hmix, ← Fin.sum_univ_def]
    refine Finset.sum_congr rfl fun i _ => ?_
    obtain ⟨hweight, hdelay⟩ := hc i
    have hvalue := r.contribution_value (scene.states t) out hfade (c i) (scene.sourceAt t i)
      (fun delay j => (scene.sources i).signal n (t * n + j - initialDelay - delay))
      (fun hne channel => by
        rw [hweight] at hne
        rw [hdelay]
        exact r.samples_driven out hl t t hne channel)
      (fun hne channel => r.samples_driven out hl t (t + 1) hne channel) j
    rw [hvalue, hweight, hdelay]
    rfl

/-- **A run**, up to a block. -/
theorem outputAfter_driven (hl : Delays n initialDelay scene.delayline)
    (hfade : ∀ j, fade.fadeOut j + fade.fadeIn j = 1) (b : Buffers n T) {t : ℕ}
    (hasserted : ∀ t' < t, ∀ i, Asserted (scene.states t') out (scene.sourceAt t' i)) :
    ∃ b' c, r.outputAfter out scene fade b t = some (b', c) ∧ r.Driven out scene t c := by
  induction t with
  | zero => exact ⟨b, _, rfl, fun i => ⟨rfl, rfl⟩⟩
  | succ t ih =>
    obtain ⟨b', c, hrun, hc⟩ := ih fun t' ht' => hasserted t' (by omega)
    obtain ⟨b'', c', hprocess, hc', -⟩ :=
      r.output_step out hl hfade (hasserted t (by omega)) hc b'
    refine ⟨b'', c', ?_, hc'⟩
    rw [outputAfter, hrun]
    exact hprocess

end

/-- **The output of a renderer.** A source arrives with the weight and the delay of the previous
block, which is faded out, and with those of the block itself. -/
theorem output_eq (r : WfsRenderer ℝ) (out : LoudspeakerOutput ℝ) (scene : Scene ℝ k)
    (b : Buffers n ℝ) {maxSize maxDelay initialDelay : ℕ} (hmax : maxSize ≤ 2 ^ 62)
    (hmaxDelay : maxDelay < 2 ^ 64) (hinitial : initialDelay < 2 ^ 64)
    (hfits : maxDelay + initialDelay + 2 * n - 1 < 2 ^ 64)
    (hnew : NonCausalBlockDelayLine.new maxSize n maxDelay initialDelay = some scene.delayline)
    (t : ℕ)
    (hasserted : ∀ t' ≤ t, ∀ i, Asserted (scene.states t') out (scene.sourceAt t' i)) :
    ∃ b' c, r.outputAfter out scene (raisedCosineFade n) b (t + 1) = some (b', c) ∧
      ∀ j, b'.out.buffer j = ∑ i,
        (r.arriving out scene n initialDelay i t (t * n + j) * (raisedCosineFade n).fadeOut j +
          r.arriving out scene n initialDelay i (t + 1) (t * n + j) *
            (raisedCosineFade n).fadeIn j) := by
  have hl := delays_new hmax hmaxDelay hinitial hfits hnew
  obtain ⟨b', c, hrun, hc⟩ := r.outputAfter_driven out hl raisedCosineFade_add b
    (t := t) fun t' ht' => hasserted t' ht'.le
  obtain ⟨b'', c', hprocess, -, hout⟩ :=
    r.output_step out hl raisedCosineFade_add (hasserted t le_rfl) hc b'
  refine ⟨b'', c', ?_, hout⟩
  rw [outputAfter, hrun]
  exact hprocess

/-- Impulses, from a source behind the loudspeaker. -/
noncomputable def impulses : History ℝ :=
  { data := fun _ => behind, weightingFactor := fun _ => .new 1
    blocks := fun _ j => if j = 0 then 1 else 0 }

/-- Sound takes four samples for a metre. -/
noncomputable def fourSamples : WfsRenderer ℝ :=
  { sampleRate := 4, cInverse := 1, toInt := fun x => Int32.ofInt ⌊x⌋ }

/-- The source is one metre away. -/
theorem stored_behind {source : Source ℝ} (hdata : source.data = behind)
    (hfocused : source.focused = false) (hgain : source.weightingFactor.current = 1)
    (hvalid : source.delayline.delayIsValid 4 = true) :
    fourSamples.stored .new facing source = (1 / 4, 4) := by
  have hdrive : drive .new facing source = (1 / 4, 1) := by
    rw [← drive_behindSource, drive_eq, drive_eq, hdata, hfocused, hgain, behindSource,
      focused_behind]
    rfl
  have hround : ((fourSamples.toInt (1 * fourSamples.cInverse * (fourSamples.sampleRate : ℝ) +
      1 / (2 : ℕ)))).toInt = 4 := by
    have hfloor : ⌊(1 * 1 * ((4 : ℕ) : ℝ) + 1 / (2 : ℕ))⌋ = 4 := by
      rw [Int.floor_eq_iff]
      norm_num
    simp only [fourSamples, hfloor]
    rfl
  rw [stored, hdrive]
  dsimp only
  rw [hround, if_pos hvalid]

/-- The first impulse comes out after the initial delay of 10 samples and the 4 samples of the way. -/
theorem output_eq_impulses : ∃ scene : Scene ℝ 1, scene.sources = (fun _ => impulses) ∧
    NonCausalBlockDelayLine.new (2 ^ 62) 4 100 10 = some scene.delayline ∧ ∀ b : Buffers 4 ℝ,
      ∃ b' c, fourSamples.outputAfter facing scene (raisedCosineFade 4) b 4 = some (b', c) ∧
        b'.out.buffer ⟨2, by decide⟩ = 1 / 4 := by
  obtain ⟨l, hl⟩ : ∃ l : NonCausalBlockDelayLine ℝ,
      NonCausalBlockDelayLine.new (2 ^ 62) 4 100 10 = some l := ⟨_, rfl⟩
  have hvalid : l.delayIsValid 4 = true := by
    cases hl
    rfl
  let scene : Scene ℝ 1 :=
    { states := fun _ => .new, outputs := [facing], delayline := l, sources := fun _ => impulses }
  have hdriven : ∀ i t, fourSamples.driven facing scene i (t + 1) = (1 / 4, 4) := fun i t =>
    stored_behind rfl focused_behind rfl ((delayIsValid_delayline l impulses (t + 1) 4).trans hvalid)
  refine ⟨scene, rfl, hl, fun b => ?_⟩
  have hasserted : ∀ t i, Asserted (scene.states t) facing (scene.sourceAt t i) := by
    refine fun t i => (asserted_iff _ _ _).2 ⟨fun h => ?_, .inr ?_⟩
    · cases h
    · simp [Scene.sourceAt, scene, impulses, facing, BlockParameter.new]
  obtain ⟨b', c, hrun, hout⟩ := output_eq fourSamples facing scene b le_rfl (by norm_num)
    (by norm_num) (by norm_num) hl 3 fun t _ => hasserted t
  have harriving : ∀ i t, fourSamples.arriving facing scene 4 10 i (t + 1) 14 = 1 / 4 := by
    intro i t
    rw [arriving, hdriven]
    simp [scene, History.signal, impulses]
  refine ⟨b', c, hrun, ?_⟩
  have hsum := hout ⟨2, by decide⟩
  rw [Fintype.sum_unique] at hsum
  norm_num only at hsum
  rw [hsum, harriving _ 2, harriving _ 3, ← mul_add, raisedCosineFade_add, mul_one]

end Ssr.WfsRenderer
