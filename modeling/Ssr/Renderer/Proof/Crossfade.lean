import Ssr.Apf.Proof.CombineChannels
import Ssr.Renderer.Proof.OneFilter
import Mathlib.Algebra.Field.Rat

/-!
# Crossfades without jumps

`Fits` is what a mode says of the old and the new weight; both renderers choose a mode that fits.
`combine_process` follows one channel through a block: the old signal has the pointers from before
the change of the filter and the old weight, the new one has those from after it. Since nothing
happens between two blocks, the signals of adjacent blocks match (`Settled`). Weight, index and
interpolation factor of the new signal are those of the block (`Run.Continuous`). The renderers look
at the queues of the left channel only; those of the right one are as empty (`occupied_exchange`).
-/

set_option autoImplicit false

namespace Apf

open Lib

variable {σ π α : Type}

/-! ## One channel -/

namespace BlockParameter

variable [DecidableEq α] {p : BlockParameter α}

theorem bothEq_iff {value : α} : p.bothEq value = true ↔ p.current = value ∧ p.old = value := by
  simp [bothEq]

theorem changed_eq_false_iff : p.changed = false ↔ p.old = p.current := by
  rw [eq_comm (a := p.old)]
  simp [changed]

end BlockParameter

namespace CombineChannelsResult

/-- What the mode says of the weights, of the queues and of a change of the filter. -/
def Fits [Zero α] (weight : BlockParameter α) (queuesEmpty changed : Bool) :
    CombineChannelsResult → Prop
  | .nothing => weight.old = 0 ∧ weight.current = 0
  | .constant => queuesEmpty ∧ changed = false ∧ weight.old = weight.current ∧ weight.old ≠ 0
  | .change => weight.old ≠ 0 ∧ weight.current ≠ 0
  | .fadeIn => weight.old = 0 ∧ weight.current ≠ 0
  | .fadeOut => weight.old ≠ 0 ∧ weight.current = 0

theorem fits_constant [Zero α] [DecidableEq α] {weight : BlockParameter α}
    {queuesEmpty changed : Bool} (hboth : ¬weight.bothEq 0)
    (h : (queuesEmpty && !weight.changed && !changed) = true) :
    CombineChannelsResult.constant.Fits weight queuesEmpty changed := by
  simp only [Bool.and_eq_true, Bool.not_eq_true', BlockParameter.changed_eq_false_iff] at h
  obtain ⟨⟨hempty, hsame⟩, hchanged⟩ := h
  refine ⟨hempty, hchanged, hsame, fun hold => hboth ?_⟩
  exact BlockParameter.bothEq_iff.2 ⟨hsame ▸ hold, hold⟩

end CombineChannelsResult

variable [Zero α]

section
variable [DecidableEq α]

/-- The signal with this weight, which is omitted if the weight is zero. -/
def signalOf (input : σ) (filterPtrs : List π) (weight : α) : Option (Convolved σ π α) :=
  if weight = 0 then none else some ⟨input, filterPtrs, weight⟩

namespace SourceChannel

section Combine
omit [Zero α] [DecidableEq α]
variable {c : SourceChannel σ π α} (input : σ)

/-- The signal that `update` makes. -/
def updated (c : SourceChannel σ π α) : Convolved σ π α := ⟨input, c.output.filterPtrs, c.weight⟩

theorem combine_nothing (h : c.crossfadeMode = .nothing) :
    c.combine input = (c, ⟨none, none, none⟩) := by
  simp [combine, h]

theorem combine_constant (h : c.crossfadeMode = .constant) :
    c.combine input = (c, ⟨c.signal, none, none⟩) := by
  simp [combine, h]

theorem combine_change (h : c.crossfadeMode = .change) :
    c.combine input = (c.update input, ⟨none, c.signal, some (updated input c)⟩) := by
  simp [combine, h, update, convolveAndMore, updated]

theorem combine_fadeIn (h : c.crossfadeMode = .fadeIn) :
    c.combine input = (c.update input, ⟨none, none, some (updated input c)⟩) := by
  simp [combine, h, update, convolveAndMore, updated]

theorem combine_fadeOut (h : c.crossfadeMode = .fadeOut) :
    c.combine input = (c, ⟨none, c.signal, none⟩) := by
  simp [combine, h]

end Combine

omit [Zero α] [DecidableEq α] in
theorem process_signal (c : SourceChannel σ π α) (input : σ) (mode : CombineChannelsResult)
    (queuesEmpty : Bool) (filter : Option (List π)) (weight : BlockParameter α) :
    (c.process input mode queuesEmpty filter weight).signal =
      if mode = .nothing ∨ mode = .fadeIn then c.signal
      else some ⟨input, c.output.filterPtrs, weight.old⟩ := by
  by_cases h : mode = .nothing ∨ mode = .fadeIn <;>
    cases queuesEmpty <;> cases filter <;> simp [process, convolveAndMore, h]

omit [Zero α] [DecidableEq α] in
/-- Neither a rotation nor a new filter. -/
theorem process_output (c : SourceChannel σ π α) (input : σ) (mode : CombineChannelsResult)
    (weight : BlockParameter α) : (c.process input mode true none weight).output = c.output :=
  c.process_output_eq input mode true none weight

omit [Zero α] [DecidableEq α] in
theorem process_exchange (c : SourceChannel σ π α) (input : σ) (mode : CombineChannelsResult)
    (filter : Option (List π)) (weight : BlockParameter α) :
    (c.process input mode c.output.queuesEmpty filter weight).output = c.output.exchange filter := by
  rw [process_output_eq]
  cases filter with
  | none => rfl
  | some filter => rfl

/-- **One block** of one channel. -/
theorem combine_process (c : SourceChannel σ π α) (input : σ) {mode : CombineChannelsResult}
    {queuesEmpty : Bool} {filter : Option (List π)} {weight : BlockParameter α}
    (hmode : mode.Fits weight queuesEmpty filter.isSome) :
    let c' := c.process input mode queuesEmpty filter weight
    let r := c'.combine input
    r.1.output = c'.output ∧ r.1.crossfadeMode = mode ∧
      r.2.old = signalOf input c.output.filterPtrs weight.old ∧
      r.2.new = signalOf input c'.output.filterPtrs weight.current ∧
      (mode = .constant →
        c.output.filterPtrs = c'.output.filterPtrs ∧ weight.old = weight.current) := by
  intro c' r
  have hsignal : c'.signal = if mode = .nothing ∨ mode = .fadeIn then c.signal
      else some ⟨input, c.output.filterPtrs, weight.old⟩ := c.process_signal ..
  have hmode' : c'.crossfadeMode = mode := rfl
  have hupdated : updated input c' = ⟨input, c'.output.filterPtrs, weight.current⟩ := rfl
  cases mode with
  | nothing =>
    obtain ⟨hold, hnew⟩ := hmode
    have hr : r = (c', ⟨none, none, none⟩) := combine_nothing input hmode'
    simp [hr, hmode', Combined.old, Combined.new, signalOf, hold, hnew]
  | constant =>
    obtain ⟨rfl, hfilter, hsame, hne⟩ := hmode
    obtain rfl : filter = none := by simpa using hfilter
    have hr : r = (c', ⟨c'.signal, none, none⟩) := combine_constant input hmode'
    have houtput : c'.output = c.output := c.process_output input .constant weight
    have hne' : weight.current ≠ 0 := hsame ▸ hne
    simp only [reduceCtorEq, or_self, if_false] at hsignal
    simp [hr, hmode', Combined.old, Combined.new, signalOf, hsame, hne', houtput, hsignal]
  | change =>
    obtain ⟨hold, hnew⟩ := hmode
    have hr : r = (c'.update input, ⟨none, c'.signal, some (updated input c')⟩) :=
      combine_change input hmode'
    simp only [reduceCtorEq, or_self, if_false] at hsignal
    simp [hr, hmode', Combined.old, Combined.new, signalOf, hold, hnew, hsignal, hupdated, update,
      convolveAndMore]
  | fadeIn =>
    obtain ⟨hold, hnew⟩ := hmode
    have hr : r = (c'.update input, ⟨none, none, some (updated input c')⟩) :=
      combine_fadeIn input hmode'
    simp [hr, hmode', Combined.old, Combined.new, signalOf, hold, hnew, hupdated, update,
      convolveAndMore]
  | fadeOut =>
    obtain ⟨hold, hnew⟩ := hmode
    have hr : r = (c', ⟨none, c'.signal, none⟩) := combine_fadeOut input hmode'
    simp only [reduceCtorEq, or_self, if_false] at hsignal
    simp [hr, hmode', Combined.old, Combined.new, signalOf, hold, hnew, hsignal]

end SourceChannel

/-! ## Between two blocks -/

end

/-- A block with the result `r`, between the states `before` and `after` of the channel: the filter,
if there is a new one, has been exchanged; the signals are made of the input of the block, the filter
pointers and the weight, the old ones and the new ones; what is there at the beginning is what was
there at the end of the `previous` block; the old or the new signal is omitted only if its weight is
zero; and if the signal is taken for constant then filter and weight have not changed. -/
structure Continuous (previous : Option (Combined σ π α)) (input : σ) (filter : Option (List π))
    (before after : SourceChannel σ π α) (weight : BlockParameter α) (r : Combined σ π α) :
    Prop where
  exchanged : after.output = before.output.exchange filter
  old_signal : ∀ s, r.old = some s → s = ⟨input, before.output.filterPtrs, weight.old⟩
  new_signal : ∀ s, r.new = some s → s = ⟨input, after.output.filterPtrs, weight.current⟩
  continuous : ∀ p, previous = some p →
    r.old.map Convolved.settings = p.new.map Convolved.settings
  old_omitted : r.old = none → weight.old = 0
  new_omitted : r.new = none → weight.current = 0
  constant : after.crossfadeMode = .constant →
    before.output.filterPtrs = after.output.filterPtrs ∧ weight.old = weight.current

section
variable [DecidableEq α]

/-- The signal at the end of the last block was made with this filter and this weight. -/
def Settled (previous : Option (Combined σ π α)) (c : SourceChannel σ π α) (weight : α) : Prop :=
  ∀ p, previous = some p →
    p.new.map Convolved.settings = if weight = 0 then none else some (c.output.filterPtrs, weight)

theorem map_settings_signalOf (input : σ) (filterPtrs : List π) (weight : α) :
    (signalOf input filterPtrs weight).map Convolved.settings =
      if weight = 0 then none else some (filterPtrs, weight) := by
  unfold signalOf
  split <;> rfl

theorem eq_of_signalOf {input : σ} {filterPtrs : List π} {weight : α} {s : Convolved σ π α}
    (h : signalOf input filterPtrs weight = some s) : s = ⟨input, filterPtrs, weight⟩ := by
  unfold signalOf at h
  split at h
  · cases h
  · exact (Option.some.inj h).symm

theorem signalOf_eq_none {input : σ} {filterPtrs : List π} {weight : α}
    (h : signalOf input filterPtrs weight = none) : weight = 0 := by
  unfold signalOf at h
  split at h
  · assumption
  · cases h

/-- **A block follows another** without a jump, and leaves the channel settled for the next one. -/
theorem Settled.block {previous : Option (Combined σ π α)} {c : SourceChannel σ π α}
    {mode : CombineChannelsResult} {queuesEmpty changed : Bool} {filter : Option (List π)}
    {weight : BlockParameter α} (h : Settled previous c weight.old)
    (hempty : queuesEmpty = c.output.queuesEmpty) (hfilter : filter.isSome = changed)
    (hmode : mode.Fits weight queuesEmpty changed) (input : σ) :
    let r := (c.process input mode queuesEmpty filter weight).combine input
    Continuous previous input filter c r.1 weight r.2 ∧ Settled (some r.2) r.1 weight.current := by
  subst hfilter hempty
  obtain ⟨houtput, hcombined, hold, hnew, hconstant⟩ := c.combine_process input hmode
  intro r
  refine ⟨⟨?_, fun s hs => ?_, fun s hs => ?_, fun p hp => ?_, fun hnone => ?_, fun hnone => ?_,
    fun hc => ?_⟩, fun p hp => ?_⟩
  · exact houtput.trans (c.process_exchange input mode filter weight)
  · exact eq_of_signalOf (hold.symm.trans hs)
  · rw [houtput]
    exact eq_of_signalOf (hnew.symm.trans hs)
  · rw [hold, map_settings_signalOf, h p hp]
  · exact signalOf_eq_none (hold.symm.trans hnone)
  · exact signalOf_eq_none (hnew.symm.trans hnone)
  · rw [houtput]
    exact hconstant (hcombined.symm.trans hc)
  · cases hp
    rw [hnew, map_settings_signalOf, houtput]

end

/-! ## Queues in parallel -/

namespace Conv.Output

omit [Zero α]

/-- Which entries of the queues are valid. -/
def occupied (o : Output π) : List (List Bool) := o.queues.map fun queue => queue.map Option.isSome

variable {o o' : Output π}

theorem queuesEmpty_eq (o : Output π) : o.queuesEmpty =
    match o.occupied.getLast? with
    | none => true
    | some queue => queue.all (!·) := by
  rw [queuesEmpty, occupied, List.getLast?_map]
  cases o.queues.getLast? with
  | none => rfl
  | some queue => simp [Function.comp_def]

theorem occupied_rotateQueues (o : Output π) :
    o.rotateQueues.occupied = o.occupied.map fun queue => queue.tail ++ [false] := by
  simp [rotateQueues, occupied, Function.comp_def]

theorem occupied_setFilter (o : Output π) (filter : List π) :
    (o.setFilter filter).occupied = o.occupied.mapIdx fun i queue => queue.set i true := by
  refine List.ext_getElem (by simp [setFilter, occupied]) fun i _ _ => ?_
  simp [setFilter, occupied, List.map_set]

/-- The pointers themselves make no difference. -/
theorem occupied_exchange {filter filter' : Option (List π)} (h : o.occupied = o'.occupied)
    (hfilter : filter.isSome = filter'.isSome) :
    (o.exchange filter).occupied = (o'.exchange filter').occupied := by
  have hempty : o.queuesEmpty = o'.queuesEmpty := by rw [queuesEmpty_eq, queuesEmpty_eq, h]
  have hrotate : (if o.queuesEmpty then o else o.rotateQueues).occupied =
      (if o'.queuesEmpty then o' else o'.rotateQueues).occupied := by
    rw [hempty]
    split
    · exact h
    · rw [occupied_rotateQueues, occupied_rotateQueues, h]
  unfold exchange
  cases filter with
  | none =>
    cases filter' with
    | none => exact hrotate
    | some _ => cases hfilter
  | some filter =>
    cases filter' with
    | none => cases hfilter
    | some filter' =>
      dsimp only
      rw [occupied_setFilter, occupied_setFilter, hrotate]

end Conv.Output

end Apf

/-! ## The binaural renderer -/

namespace Ssr

open Apf Conv Lib

variable {σ α : Type}

namespace Binaural

theorem crossfadeMode_fits [Zero α] [DecidableEq α] (queuesEmpty changed : Bool)
    (weight : BlockParameter α) :
    (crossfadeMode queuesEmpty changed weight).Fits weight queuesEmpty changed := by
  unfold crossfadeMode
  split
  · rename_i h
    exact (BlockParameter.bothEq_iff.1 h).symm
  · rename_i hboth
    split
    · rename_i h
      exact CombineChannelsResult.fits_constant hboth h
    · rw [BlockParameter.bothEq_iff] at hboth
      by_cases hcurrent : weight.current = 0
      · rw [if_pos hcurrent]
        exact ⟨fun hold => hboth ⟨hcurrent, hold⟩, hcurrent⟩
      · rw [if_neg hcurrent]
        by_cases hold : weight.old = 0
        · rw [if_pos hold]
          exact ⟨hold, hcurrent⟩
        · rw [if_neg hold]
          exact ⟨hold, hcurrent⟩

variable [Field α] [DecidableEq α] (cfg : Config α)

/-- The filter that channel `i` of the source `s`, as it is after the block, has to set: none if
neither index nor interpolation factor have changed. -/
def newFilter (i : ℕ) (s : Source σ α) (b : Block σ α) : Option (List NodePtr) :=
  if s.hrtfIndex.changed || s.interpFactor.changed then some (filterPtrs cfg i b) else none

/-- Only the nodes of `temporary_hrtf` are special to the binaural renderer. -/
theorem Channel.process_eq {c : Channel σ α} (hlength : c.temporaryHrtf.length = cfg.partitions)
    (i : ℕ) (b : Block σ α) (mode : CombineChannelsResult) (queuesEmpty hrtfChanged : Bool)
    (weight : BlockParameter α) :
    (c.process cfg i b mode queuesEmpty hrtfChanged weight).toSourceChannel =
        c.toSourceChannel.process b.input mode queuesEmpty
          (if hrtfChanged then some (filterPtrs cfg i b) else none) weight ∧
      (c.process cfg i b mode queuesEmpty hrtfChanged weight).temporaryHrtf.length =
        cfg.partitions := by
  unfold Channel.process
  cases hrtfChanged with
  | false => exact ⟨rfl, hlength⟩
  | true =>
    by_cases h : b.interpFactor = 0
    · simp [h, filterPtrs, hlength]
    · -- the interpolated filter is in `temporary_hrtf`
      simp [h, filterPtrs, transformNested_length, hlength]

theorem Channel.block {previous : Option (Combined σ NodePtr α)} {c : Channel σ α}
    {mode : CombineChannelsResult} {queuesEmpty hrtfChanged : Bool} {weight : BlockParameter α}
    (h : Apf.Settled previous c.toSourceChannel weight.old)
    (hlength : c.temporaryHrtf.length = cfg.partitions)
    (hempty : queuesEmpty = c.output.queuesEmpty) (hmode : mode.Fits weight queuesEmpty hrtfChanged)
    (i : ℕ) (b : Block σ α) :
    let c' := c.process cfg i b mode queuesEmpty hrtfChanged weight
    let r := c'.combine b.input
    Continuous previous b.input (if hrtfChanged then some (filterPtrs cfg i b) else none)
        c.toSourceChannel r.1 weight r.2 ∧
      Apf.Settled (some r.2) r.1 weight.current ∧ c'.temporaryHrtf.length = cfg.partitions := by
  obtain ⟨hprocess, hlength'⟩ := Channel.process_eq cfg hlength i b mode queuesEmpty hrtfChanged weight
  have hfilter : (if hrtfChanged then some (filterPtrs cfg i b) else none).isSome = hrtfChanged := by
    cases hrtfChanged <;> rfl
  obtain ⟨hcontinuous, hsettled⟩ := h.block hempty hfilter hmode b.input
  intro c' r
  rw [← hprocess] at hcontinuous hsettled
  exact ⟨hcontinuous, hsettled, hlength'⟩

/-- Both channels can go on with the next block. -/
structure Run.Settled (r : Run σ α) : Prop where
  left : Apf.Settled r.left r.source.left.toSourceChannel r.source.weight.current
  right : Apf.Settled r.right r.source.right.toSourceChannel r.source.weight.current
  parallel : r.source.left.output.occupied = r.source.right.output.occupied
  leftLength : r.source.left.temporaryHrtf.length = cfg.partitions
  rightLength : r.source.right.temporaryHrtf.length = cfg.partitions

/-- The step from `r` to `r'` is the block `b` without a jump: weight, index and interpolation factor
are those of the block, and so are the new filters and the signals of both channels. -/
structure Run.Continuous (r r' : Run σ α) (b : Block σ α) : Prop where
  hrtfIndex : r'.source.hrtfIndex = r.source.hrtfIndex.assign b.hrtfIndex
  interpFactor : r'.source.interpFactor = r.source.interpFactor.assign b.interpFactor
  weight : r'.source.weight = r.source.weight.assign b.weight
  left : ∃ out, r'.left = some out ∧ Apf.Continuous r.left b.input (newFilter cfg 0 r'.source b)
    r.source.left.toSourceChannel r'.source.left.toSourceChannel r'.source.weight out
  right : ∃ out, r'.right = some out ∧ Apf.Continuous r.right b.input (newFilter cfg 1 r'.source b)
    r.source.right.toSourceChannel r'.source.right.toSourceChannel r'.source.weight out

variable {cfg} {r r' : Run σ α} {b : Block σ α}

theorem Run.Settled.step (h : r.Settled cfg) (hs : r.step cfg b = some r') :
    r.Continuous cfg r' b ∧ r'.Settled cfg := by
  cases hs
  have hmode := crossfadeMode_fits r.source.left.output.queuesEmpty
    ((r.source.hrtfIndex.assign b.hrtfIndex).changed ||
      (r.source.interpFactor.assign b.interpFactor).changed) (r.source.weight.assign b.weight)
  have hempty : r.source.left.output.queuesEmpty = r.source.right.output.queuesEmpty := by
    rw [Output.queuesEmpty_eq, Output.queuesEmpty_eq, h.parallel]
  obtain ⟨hleft, hleft', hlength⟩ := Channel.block cfg h.left h.leftLength rfl hmode 0 b
  obtain ⟨hright, hright', hlength'⟩ := Channel.block cfg h.right h.rightLength hempty hmode 1 b
  refine ⟨⟨rfl, rfl, rfl, ⟨_, rfl, hleft⟩, ⟨_, rfl, hright⟩⟩, hleft', hright', ?_, hlength, hlength'⟩
  refine (congrArg Output.occupied hleft.exchanged).trans
    (.trans ?_ (congrArg Output.occupied hright.exchanged).symm)
  refine Output.occupied_exchange h.parallel ?_
  split <;> rfl

theorem Run.settled_start : (Run.start cfg : Run σ α).Settled cfg :=
  ⟨fun _ hp => (by cases hp), fun _ hp => (by cases hp), rfl, List.length_replicate,
    List.length_replicate⟩

end Binaural

/-! ## The BRS renderer -/

namespace Brs

theorem crossfadeMode_fits [Zero α] [DecidableEq α] (queuesEmpty changed : Bool)
    (weight : BlockParameter α) :
    (crossfadeMode queuesEmpty changed weight).Fits weight queuesEmpty changed := by
  unfold crossfadeMode
  split
  · rename_i h
    exact (BlockParameter.bothEq_iff.1 h).symm
  · rename_i hboth
    split
    · rename_i h
      exact CombineChannelsResult.fits_constant hboth h
    · rw [BlockParameter.bothEq_iff] at hboth
      by_cases hold : weight.old = 0
      · rw [if_pos hold]
        exact ⟨hold, fun hcurrent => hboth ⟨hcurrent, hold⟩⟩
      · rw [if_neg hold]
        by_cases hcurrent : weight.current = 0
        · rw [if_pos hcurrent]
          exact ⟨hold, hcurrent⟩
        · rw [if_neg hcurrent]
          exact ⟨hold, hcurrent⟩

variable [Ring α] [DecidableEq α] (cfg : Config α)

/-- The filter that channel `i` of the source `s`, as it is after the block, has to set: none if the
index has not changed. -/
def newFilter (i : ℕ) (s : Source σ α) (b : Block σ α) : Option (List NodePtr) :=
  if s.brtfIndex.changed then some (brtfPtrs cfg (2 * b.brtfIndex + i)) else none

/-- Both channels can go on with the next block. -/
structure Run.Settled (r : Run σ α) : Prop where
  left : Apf.Settled r.left r.source.left r.source.weightingFactor.current
  right : Apf.Settled r.right r.source.right r.source.weightingFactor.current
  parallel : r.source.left.output.occupied = r.source.right.output.occupied

/-- The step from `r` to `r'` is the block `b` without a jump: weighting factor and index are those of
the block, and so are the new filters and the signals of both channels. -/
structure Run.Continuous (r r' : Run σ α) (b : Block σ α) : Prop where
  brtfIndex : r'.source.brtfIndex = r.source.brtfIndex.assign b.brtfIndex
  weightingFactor :
    r'.source.weightingFactor = r.source.weightingFactor.assign b.weightingFactor
  left : ∃ out, r'.left = some out ∧ Apf.Continuous r.left b.input (newFilter cfg 0 r'.source b)
    r.source.left r'.source.left r'.source.weightingFactor out
  right : ∃ out, r'.right = some out ∧ Apf.Continuous r.right b.input (newFilter cfg 1 r'.source b)
    r.source.right r'.source.right r'.source.weightingFactor out

variable {cfg} {r r' : Run σ α} {b : Block σ α}

theorem Run.Settled.step (h : r.Settled) (hs : r.step cfg b = some r') :
    r.Continuous cfg r' b ∧ r'.Settled := by
  cases hs
  have hmode := crossfadeMode_fits r.source.left.output.queuesEmpty
    (r.source.brtfIndex.assign b.brtfIndex).changed
    (r.source.weightingFactor.assign b.weightingFactor)
  have hfilter : ∀ i, (if (r.source.brtfIndex.assign b.brtfIndex).changed then
      some (brtfPtrs cfg (2 * b.brtfIndex + i)) else none).isSome =
        (r.source.brtfIndex.assign b.brtfIndex).changed := by
    intro i
    cases (r.source.brtfIndex.assign b.brtfIndex).changed <;> rfl
  have hempty : r.source.left.output.queuesEmpty = r.source.right.output.queuesEmpty := by
    rw [Output.queuesEmpty_eq, Output.queuesEmpty_eq, h.parallel]
  obtain ⟨hleft, hleft'⟩ := h.left.block rfl (hfilter 0) hmode b.input
  obtain ⟨hright, hright'⟩ := h.right.block hempty (hfilter 1) hmode b.input
  refine ⟨⟨rfl, rfl, ⟨_, rfl, hleft⟩, ⟨_, rfl, hright⟩⟩, hleft', hright', ?_⟩
  refine (congrArg Output.occupied hleft.exchanged).trans
    (.trans ?_ (congrArg Output.occupied hright.exchanged).symm)
  exact Output.occupied_exchange h.parallel ((hfilter 0).trans (hfilter 1).symm)

theorem Run.settled_start : (Run.start cfg : Run σ α).Settled :=
  ⟨fun _ hp => (by cases hp), fun _ hp => (by cases hp), rfl⟩

end Brs

/-- **Crossfades are continuous** in both renderers: from every state that a run reaches, every block
is without a jump. -/
theorem crossfades_continuous [Field α] [DecidableEq α] :
    (∀ (cfg : Binaural.Config α) (r : Binaural.Run σ α) (b : Binaural.Block σ α),
      Reach (Binaural.Run.step cfg) (fun _ _ => True) (Binaural.Run.start cfg) r →
      ∃ r', r.step cfg b = some r' ∧ r.Continuous cfg r' b) ∧
    ∀ (cfg : Brs.Config α) (r : Brs.Run σ α) (b : Brs.Block σ α),
      Reach (Brs.Run.step cfg) (fun _ _ => True) (Brs.Run.start cfg) r →
      ∃ r', r.step cfg b = some r' ∧ r.Continuous cfg r' b := by
  constructor
  · intro cfg r b hr
    have hsettled : r.Settled cfg := hr.inv (Binaural.Run.Settled cfg) Binaural.Run.settled_start
      fun _ _ _ h _ hstep => (h.step hstep).2
    obtain ⟨r', hs⟩ : ∃ r', r.step cfg b = some r' := ⟨_, rfl⟩
    exact ⟨r', hs, (hsettled.step hs).1⟩
  · intro cfg r b hr
    have hsettled : r.Settled := hr.inv Brs.Run.Settled Brs.Run.settled_start
      fun _ _ _ h _ hstep => (h.step hstep).2
    obtain ⟨r', hs⟩ : ∃ r', r.step cfg b = some r' := ⟨_, rfl⟩
    exact ⟨r', hs, (hsettled.step hs).1⟩

/-- A source that moves close to the listener and is then muted: its old signals are faded out. -/
theorem crossfades_continuous_muted :
    (let cfg : Binaural.Config ℚ := ⟨fun _ => [.new, .new], [.new], 2⟩
     ∃ r r' : Binaural.Run Unit ℚ, (Binaural.Run.start cfg).step cfg ⟨(), 3, 1 / 2, 1⟩ = some r ∧
      r.step cfg ⟨(), 4, 1 / 2, 0⟩ = some r' ∧ r.Continuous cfg r' ⟨(), 4, 1 / 2, 0⟩ ∧
      r'.right = some ⟨none, some ⟨(), [.temporary 0, .empty], 1⟩, none⟩) ∧
    (let cfg : Brs.Config ℚ := ⟨fun _ => [.new, .new], 2⟩
     ∃ r r' : Brs.Run Unit ℚ, (Brs.Run.start cfg).step cfg ⟨(), 3, 1⟩ = some r ∧
      r.step cfg ⟨(), 4, 0⟩ = some r' ∧ r.Continuous cfg r' ⟨(), 4, 0⟩ ∧
      r'.right = some ⟨none, some ⟨(), [.brtf 7 0, .empty], 1⟩, none⟩) := by
  constructor
  · intro cfg
    obtain ⟨r, hr⟩ : ∃ r, (Binaural.Run.start cfg).step cfg ⟨(), 3, 1 / 2, 1⟩ = some r := ⟨_, rfl⟩
    obtain ⟨r', hr'⟩ : ∃ r', r.step cfg ⟨(), 4, 1 / 2, 0⟩ = some r' := ⟨_, rfl⟩
    obtain ⟨r'', hr'', hcontinuous⟩ :=
      crossfades_continuous.1 cfg r _ (.tail .refl trivial hr)
    obtain rfl : r'' = r' := Option.some_injective _ (hr''.symm.trans hr')
    refine ⟨r, r'', hr, hr', hcontinuous, ?_⟩
    cases hr
    cases hr'
    decide +kernel
  · intro cfg
    obtain ⟨r, hr⟩ : ∃ r, (Brs.Run.start cfg).step cfg ⟨(), 3, 1⟩ = some r := ⟨_, rfl⟩
    obtain ⟨r', hr'⟩ : ∃ r', r.step cfg ⟨(), 4, 0⟩ = some r' := ⟨_, rfl⟩
    obtain ⟨r'', hr'', hcontinuous⟩ :=
      crossfades_continuous.2 cfg r _ (.tail .refl trivial hr)
    obtain rfl : r'' = r' := Option.some_injective _ (hr''.symm.trans hr')
    refine ⟨r, r'', hr, hr', hcontinuous, ?_⟩
    cases hr
    cases hr'
    decide +kernel

end Ssr

/-! ## One channel in the mix -/

namespace Apf.CombineChannels

variable {α : Type} {n : ℕ}

/-- What a channel with this mode contributes; `samples` are from before its update and `updated`
from after it. -/
def Contribution.ofMode (mode : CombineChannelsResult) (samples updated : Samples n α) :
    Contribution n α :=
  match mode with
  | .nothing => ⟨none, none, none⟩
  | .constant => ⟨some samples, none, none⟩
  | .change => ⟨none, some samples, some updated⟩
  | .fadeIn => ⟨none, none, some updated⟩
  | .fadeOut => ⟨none, some samples, none⟩

/-- **Whatever the mode**, if it fits, the old signal is faded out and the new one is faded in. -/
theorem Contribution.ofMode_value [Semiring α] {fade : Fade n α} {j : Fin n}
    (hfade : fade.fadeOut j + fade.fadeIn j = 1) {mode : CombineChannelsResult}
    {weight : BlockParameter α} {queuesEmpty changed : Bool}
    (hmode : mode.Fits weight queuesEmpty changed) {samples updated : Samples n α} {old new : α}
    (hsamples : ¬(mode = .nothing ∨ mode = .fadeIn) → samples j = old) (hupdated : updated j = new)
    (hold : weight.old = 0 → old = 0) (hnew : weight.current = 0 → new = 0)
    (hconstant : mode = .constant → old = new) :
    (ofMode mode samples updated).value fade j = old * fade.fadeOut j + new * fade.fadeIn j := by
  cases mode with
  | nothing => simp [ofMode, value, hold hmode.1, hnew hmode.2]
  | constant =>
    rw [← hconstant rfl, ← mul_add, hfade]
    simp [ofMode, value, hsamples]
  | change => simp [ofMode, value, hsamples, hupdated]
  | fadeIn => simp [ofMode, value, hupdated, hold hmode.1]
  | fadeOut => simp [ofMode, value, hsamples, hnew hmode.2]

end Apf.CombineChannels
