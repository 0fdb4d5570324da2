import Ssr.Apf.Proof.Interpolation
import Ssr.Lib.Traverse
import Ssr.Renderer.AapRenderer
import Ssr.Renderer.Proof.VbapVector

/-!
# The gains of the panning renderers

The weights of a source for one loudspeaker change from block to block. Whatever the renderer selects
for a block, what the loudspeaker plays of the source is the input times one gain signal, which joins
these weights by lines (`AapRenderer.blocks_gain`, `VbapRenderer.output_gain`).
-/

set_option autoImplicit false

namespace Ssr

open Apf CombineChannels Lib

variable {T : Type} [Scalar T] [LinearOrder T] [CMath T] {n : ℕ}

/-! ## Ambisonics amplitude panning -/

namespace AapRenderer

variable (r : AapRenderer) (state : RenderState T) (out : LoudspeakerOutput T)

/-- A channel after its block. -/
def SourceChannel.next (channel : SourceChannel T n) : SourceChannel T n :=
  { channel with storedWeight := channel.storedWeight.assign (r.weight state out channel.source) }

theorem selects (channel : SourceChannel T n) :
    Selects (r.renderFunction state out) (fun channel => channel.source.samples)
      (SourceChannel.next r state out)
      (fun channel i => channel.source.samples i *
        ramp n channel.storedWeight.current (r.weight state out channel.source) i) channel := by
  let old := channel.storedWeight.current
  let new := r.weight state out channel.source
  let channel' := channel.next r state out
  have hselect : ∀ f, (r.renderFunction state out).select f channel =
      if old = 0 ∧ new = 0 then (f, channel', .nothing)
      else if old = new then ({ f with weight := new }, channel', .constant)
      else ({ f with interpolator := .range old new (n : T) }, channel', .change) := fun _ => rfl
  exact selects_ramp hselect (fun _ _ => rfl) (fun _ _ _ => rfl) rfl

/-- An output over several blocks; each source is given by what it is in each block. -/
def blocks (states : ℕ → RenderState T) (sources : List (ℕ → RenderSource T n))
    (buffer : Target n T) : ℕ → Option (Target n T × List (SourceChannel T n))
  | 0 => some (buffer, sources.map fun source => { source := source 0, storedWeight := .new 0 })
  | t + 1 => do
    let (buffer, channels) ← blocks states sources buffer t
    let channels := channels.zipWith (fun channel source => { channel with source := source t }) sources
    r.processOutput (states t) out channels buffer

/-- The weights of a source at the beginning of each block. -/
def weights (states : ℕ → RenderState T) (source : ℕ → RenderSource T n) : ℕ → T
  | 0 => 0
  | t + 1 => r.weight (states t) out (source t)

/-- The channel of a source before the block `t`. -/
def channelAt (states : ℕ → RenderState T) (source : ℕ → RenderSource T n) (t : ℕ) :
    SourceChannel T n :=
  { source := source (t - 1)
    storedWeight :=
      { current := r.weights out states source t, old := r.weights out states source (t - 1) } }

/-- One block. -/
theorem blocks_succ {states : ℕ → RenderState T} {sources : List (ℕ → RenderSource T n)}
    {buffer b : Target n T} {t : ℕ} (h : r.blocks out states sources buffer t =
      some (b, sources.map fun source => r.channelAt out states source t)) :
    ∃ b', r.blocks out states sources buffer (t + 1) =
        some (b', sources.map fun source => r.channelAt out states source (t + 1)) ∧
      b'.buffer = fun i => (sources.map fun source => (source t).samples i *
        ramp n (r.weights out states source t) (r.weights out states source (t + 1)) i).sum := by
  have hchannels : (sources.map fun source => r.channelAt out states source t).zipWith
      (fun channel source => { channel with source := source t }) sources =
      sources.map fun source =>
        { r.channelAt out states source t with source := source t } := by
    rw [List.zipWith_map_left, List.zipWith_self]
  obtain ⟨b', heq, hbuffer⟩ := interpolation_eq
    (fun channel (_ : channel ∈ sources.map fun source =>
      { r.channelAt out states source t with source := source t }) => r.selects (states t) out channel)
    RenderFunction.new b
  refine ⟨b', ?_, ?_⟩
  · rw [blocks, h, Option.bind_eq_bind, Option.bind_some]
    dsimp only
    rw [hchannels]
    rw [List.map_map] at heq
    exact heq
  · rw [hbuffer]
    simp only [List.map_map]
    rfl

/-- **The output of a loudspeaker** is the sum of the sources, each multiplied with a gain signal that
goes along a line from the weight of one block to that of the next. -/
theorem blocks_gain [CharZero T] (states : ℕ → RenderState T)
    (sources : List (ℕ → RenderSource T n)) (buffer : Target n T) (t : ℕ) :
    ∃ buffer' channels, r.blocks out states sources buffer (t + 1) = some (buffer', channels) ∧
      (∀ i, buffer'.buffer i = (sources.map fun source => (source t).samples i *
        rampSignal n (r.weights out states source) (t * n + i)).sum) ∧
      ∀ source ∈ sources, ∀ m,
        rampSignal n (r.weights out states source) (m + 1) -
          rampSignal n (r.weights out states source) m =
        (r.weights out states source (m / n + 1) - r.weights out states source (m / n)) / n := by
  have hblocks : ∀ t, ∃ b, r.blocks out states sources buffer t =
      some (b, sources.map fun source => r.channelAt out states source t) := by
    intro t
    induction t with
    | zero => exact ⟨buffer, rfl⟩
    | succ t ih =>
      obtain ⟨b, hb⟩ := ih
      obtain ⟨b', hb', -⟩ := r.blocks_succ out hb
      exact ⟨b', hb'⟩
  obtain ⟨b, hb⟩ := hblocks t
  obtain ⟨b', hb', hbuffer⟩ := r.blocks_succ out hb
  refine ⟨b', _, hb', fun i => ?_, fun source _ m => rampSignal_succ n _ m⟩
  rw [hbuffer]
  simp only [rampSignal_block i.isLt]

/-- A plane wave from two directions in turn. -/
noncomputable def alternating (t : ℕ) : RenderSource ℝ 1 :=
  { data := { SourceData.new with model := .plane, position := ⟨(-1) ^ t, 0⟩ }
    weightingFactor := .new 1, samples := fun _ => 3 }

theorem blocks_gain_alternating : ∃ buffer' channels,
    (AapRenderer.mk 1 true).blocks (VbapRenderer.loudspeakerAt 1 0) (fun _ => .new) [alternating]
        { buffer := fun _ => 0, accumulate := true } (2 + 1) = some (buffer', channels) ∧
      (∀ i, buffer'.buffer i = ([alternating].map fun source => (source 2).samples i *
        rampSignal 1 ((AapRenderer.mk 1 true).weights (VbapRenderer.loudspeakerAt 1 0) (fun _ => .new)
          source) (2 * 1 + i)).sum) ∧
      ∀ source ∈ [alternating], ∀ m,
        rampSignal 1 ((AapRenderer.mk 1 true).weights (VbapRenderer.loudspeakerAt 1 0) (fun _ => .new)
            source) (m + 1) -
          rampSignal 1 ((AapRenderer.mk 1 true).weights (VbapRenderer.loudspeakerAt 1 0) (fun _ => .new)
            source) m =
        ((AapRenderer.mk 1 true).weights (VbapRenderer.loudspeakerAt 1 0) (fun _ => .new) source
            (m / 1 + 1) -
          (AapRenderer.mk 1 true).weights (VbapRenderer.loudspeakerAt 1 0) (fun _ => .new) source
            (m / 1)) / (1 : ℕ) :=
  blocks_gain (AapRenderer.mk 1 true) _ _ _ _ 2

end AapRenderer

/-! ## Vector base amplitude panning -/

namespace VbapRenderer

variable {outputs : List (LoudspeakerOutput T)}
  (std : SortBy (LoudspeakerEntry.angle (T := T) (n := outputs.length)))

/-- What a source is in each block. -/
structure History (T : Type) (n : ℕ) where
  position : ℕ → Position T
  weightingFactor : ℕ → T
  samples : ℕ → Samples n T

/-- The renderer after `t` blocks. -/
def rendererAt (r : VbapRenderer outputs) (states : ℕ → RenderState T) : ℕ → VbapRenderer outputs
  | 0 => r
  | t + 1 => (rendererAt r states t).process std (states t)

variable (r : VbapRenderer outputs) (states : ℕ → RenderState T)

/-- The weights of a source in the block `t`, without its weighting factor. -/
def weightsAt (h : History T n) (t : ℕ) :
    Option (LoudspeakerWeight T outputs.length × LoudspeakerWeight T outputs.length) :=
  let r := rendererAt std r states (t + 1)
  loudspeakerWeights r.overhangAngle r.sortedLoudspeakers (r.incidenceAngle (states t) (h.position t))

/-- A source after `t` blocks. -/
def sourceAt (h : History T n) : ℕ → Option (Source T outputs.length)
  | 0 => some
    { position := h.position 0, weightingFactor := 0, firstWeight := .new .new, secondWeight := .new .new }
  | t + 1 => do
    let source ← sourceAt h t
    Source.process (rendererAt std r states (t + 1)) (states t)
      { source with position := h.position t, weightingFactor := h.weightingFactor t }

/-- An output in the block `t`. -/
def outputAt (out : Fin outputs.length) (sources : List (History T n)) (buffer : Target n T) (t : ℕ) :
    Option (Target n T) := do
  let sources ← sources.mapM fun h => (sourceAt std r states h (t + 1)).map fun source =>
    (h.samples t, source)
  processOutput out sources buffer

/-- The gain of a source for an output at the beginning of each block. -/
def gainAt (out : Fin outputs.length) (h : History T n) : ℕ → T
  | 0 => 0
  | t + 1 => ((weightsAt std r states h t).map fun (first, second) =>
      getWeight out first second * h.weightingFactor t).getD 0

/-! ### The selection of an output -/

/-- The gain that a selection stands for. -/
def Selection.gain (n : ℕ) : Selection T → ℕ → T
  | .nothing, _ => 0
  | .constant weight, _ => weight
  | .change oldWeight newWeight, i => ramp n oldWeight newWeight i

omit [CMath T] in
theorem select_gain (out : Fin outputs.length)
    {first second : BlockParameter (LoudspeakerWeight T outputs.length)}
    (h : (select out first second).isSome) :
    ∃ selection, select out first second = some selection ∧ ∀ i, selection.gain n i =
      ramp n (getWeight out first.old second.old) (getWeight out first.current second.current) i := by
  have hptr : first.current.lsPtr ≠ second.current.lsPtr ∨ first.current.lsPtr = none := by
    by_contra hptr
    rw [select, if_neg hptr] at h
    cases h
  rw [select, if_pos hptr]
  refine ⟨_, rfl, fun i => ?_⟩
  generalize getWeight out first.old second.old = old
  generalize getWeight out first.current second.current = new
  by_cases hsilent : old = 0 ∧ new = 0
  · rw [if_pos hsilent, hsilent.1, hsilent.2, ramp_self]
    rfl
  rw [if_neg hsilent]
  by_cases heq : old = new
  · rw [if_pos heq, heq, ramp_self]
    rfl
  · rw [if_neg heq]
    rfl

omit [LinearOrder T] [CMath T] in
theorem selects (source : Selected T n) :
    Selects renderFunction Selected.samples id
      (fun source i => source.samples i * source.selection.gain n i) source := by
  intro f
  obtain ⟨samples, selection⟩ := source
  cases selection with
  | nothing => exact ⟨rfl, funext fun i => mul_zero _⟩
  | constant weight => exact ⟨rfl, rfl⟩
  | change oldWeight newWeight => exact ⟨rfl, rfl⟩

/-! ### The sources in a run -/

theorem gainAt_succ {h : History T n} {t : ℕ}
    {first second : LoudspeakerWeight T outputs.length}
    (hweights : weightsAt std r states h t = some (first, second)) (out : Fin outputs.length) :
    gainAt std r states out h (t + 1) = getWeight out first second * h.weightingFactor t := by
  rw [gainAt, hweights]
  rfl

omit [LinearOrder T] [CMath T] in
theorem getWeight_mul (out : Fin outputs.length) (first second : LoudspeakerWeight T outputs.length)
    (factor : T) :
    getWeight out { first with weight := first.weight * factor }
        { second with weight := second.weight * factor } = getWeight out first second * factor := by
  unfold getWeight
  dsimp only
  split
  · rfl
  · split
    · rfl
    · rw [zero_mul]

/-- After each block a source keeps its gains, and after all but the first those of the block before. -/
theorem sourceAt_succ {h : History T n} (hwell : ∀ t, WellDefined (weightsAt std r states h t))
    (t : ℕ) : ∃ source, sourceAt std r states h (t + 1) = some source ∧
      (∀ out, (select out source.firstWeight source.secondWeight).isSome) ∧
      ∀ out, getWeight out source.firstWeight.old source.secondWeight.old =
          gainAt std r states out h t ∧
        getWeight out source.firstWeight.current source.secondWeight.current =
          gainAt std r states out h (t + 1) := by
  -- a step from a source whose weights give the gains
  have hstep : ∀ t source, sourceAt std r states h t = some source →
      (∀ out, getWeight out source.firstWeight.current source.secondWeight.current =
        gainAt std r states out h t) →
      ∃ source', sourceAt std r states h (t + 1) = some source' ∧
        (∀ out, (select out source'.firstWeight source'.secondWeight).isSome) ∧
        ∀ out, getWeight out source'.firstWeight.old source'.secondWeight.old =
            gainAt std r states out h t ∧
          getWeight out source'.firstWeight.current source'.secondWeight.current =
            gainAt std r states out h (t + 1) := by
    intro t source hsource hgain
    obtain ⟨first, second, hweights, -⟩ := hwell t
    have hwell' : WellDefined (some (first, second)) := hweights ▸ hwell t
    refine ⟨_, by
      rw [sourceAt, hsource, Option.bind_eq_bind, Option.bind_some, Source.process]
      rw [show loudspeakerWeights _ _ _ = _ from hweights]
      rfl, fun out => hwell'.select_isSome rfl rfl out, fun out => ⟨hgain out, ?_⟩⟩
    rw [gainAt_succ std r states hweights]
    exact getWeight_mul out first second _
  induction t with
  | zero => exact hstep 0 _ rfl fun out => by simp [getWeight, gainAt, LoudspeakerWeight.new,
      BlockParameter.new]
  | succ t ih =>
    obtain ⟨source, hsource, -, hgain⟩ := ih
    exact hstep (t + 1) source hsource fun out => (hgain out).2

/-- The source after the block `t`. -/
def sourceAfter (h : History T n) (t : ℕ) : Source T outputs.length :=
  (sourceAt std r states h (t + 1)).getD
    { position := h.position 0, weightingFactor := 0, firstWeight := .new .new,
      secondWeight := .new .new }

/-- What an output selects for it. -/
def selectedAfter (out : Fin outputs.length) (h : History T n) (t : ℕ) : Selected T n :=
  { samples := h.samples t
    selection := (select out (sourceAfter std r states h t).firstWeight
      (sourceAfter std r states h t).secondWeight).getD .nothing }

/-- With weights that are well defined there is a source and a selection, from gain to gain. -/
theorem selectedAfter_spec {h : History T n}
    (hwell : ∀ t, WellDefined (weightsAt std r states h t)) (out : Fin outputs.length) (t : ℕ) :
    sourceAt std r states h (t + 1) = some (sourceAfter std r states h t) ∧
    select out (sourceAfter std r states h t).firstWeight (sourceAfter std r states h t).secondWeight =
      some (selectedAfter std r states out h t).selection ∧
    ∀ i, (selectedAfter std r states out h t).selection.gain n i =
      ramp n (gainAt std r states out h t) (gainAt std r states out h (t + 1)) i := by
  obtain ⟨source, hsource, hselects, hgain⟩ := sourceAt_succ std r states hwell t
  obtain ⟨selection, hselect, hselection⟩ := select_gain out (hselects out)
  have hafter : sourceAfter std r states h t = source := by
    rw [sourceAfter, hsource, Option.getD_some]
  have hselected : (selectedAfter std r states out h t).selection = selection := by
    rw [selectedAfter, hafter, hselect, Option.getD_some]
  rw [hselected, hafter, ← (hgain out).1, ← (hgain out).2]
  exact ⟨hsource, hselect, hselection⟩

/-- At the beginning of a block only the two loudspeakers of the pair have a gain. -/
theorem exists_gainAt_pair {h : History T n}
    (hwell : ∀ t, WellDefined (weightsAt std r states h t)) (t : ℕ) :
    ∃ p q, ∀ ls, gainAt std r states ls h t ≠ 0 → some ls = p ∨ some ls = q := by
  cases t with
  | zero => exact ⟨none, none, fun out hne => absurd rfl hne⟩
  | succ t =>
    obtain ⟨first, second, hweights, -⟩ := hwell t
    refine ⟨first.lsPtr, second.lsPtr, fun out hne => ?_⟩
    rw [gainAt_succ std r states hweights, getWeight] at hne
    by_cases hfirst : first.lsPtr = some out
    · exact .inl hfirst.symm
    · rw [if_neg hfirst] at hne
      by_cases hsecond : second.lsPtr = some out
      · exact .inr hsecond.symm
      · rw [if_neg hsecond, zero_mul] at hne
        exact absurd rfl hne

/-- **The output of a loudspeaker** is the sum of the sources, each multiplied with a gain signal that
joins its weights by lines. At the beginning of a block at most two loudspeakers have a gain. -/
theorem output_gain (out : Fin outputs.length) {sources : List (History T n)}
    (hwell : ∀ h ∈ sources, ∀ t, WellDefined (weightsAt std r states h t)) (buffer : Target n T)
    (t : ℕ) :
    (∃ buffer', outputAt std r states out sources buffer t = some buffer' ∧
      ∀ i, buffer'.buffer i = (sources.map fun h =>
        h.samples t i * rampSignal n (gainAt std r states out h) (t * n + i)).sum) ∧
    ∀ h ∈ sources, ∀ t, ∃ p q, ∀ ls,
      gainAt std r states ls h t ≠ 0 → some ls = p ∨ some ls = q := by
  refine ⟨?_, fun h hmem t => exists_gainAt_pair std r states (hwell h hmem) t⟩
  have hsources : sources.mapM (fun h => (sourceAt std r states h (t + 1)).map fun source =>
      (h.samples t, source)) = some (sources.map fun h =>
        (h.samples t, sourceAfter std r states h t)) := by
    refine mapM_eq fun h hmem => ?_
    rw [(selectedAfter_spec std r states (hwell h hmem) out t).1, Option.map_some]
  have hselected : (sources.map fun h => (h.samples t, sourceAfter std r states h t)).mapM
      (fun (samples, source) => (select out source.firstWeight source.secondWeight).map
        fun selection => (⟨samples, selection⟩ : Selected T n)) =
          some (sources.map fun h => selectedAfter std r states out h t) := by
    rw [List.mapM_map]
    refine mapM_eq fun h hmem => ?_
    simp only [Function.comp_apply, (selectedAfter_spec std r states (hwell h hmem) out t).2.1,
      Option.map_some]
    rfl
  obtain ⟨buffer', heq, hbuffer⟩ := interpolation_eq
    (fun s (_ : s ∈ sources.map fun h => selectedAfter std r states out h t) => selects s)
    RenderFunction.new buffer
  refine ⟨buffer', ?_, fun i => ?_⟩
  · rw [outputAt, hsources, Option.bind_eq_bind, Option.bind_some, processOutput, hselected]
    rw [Option.bind_eq_bind, Option.bind_some, heq]
    rfl
  · rw [hbuffer]
    simp only [List.map_map]
    refine congrArg List.sum (List.map_congr_left fun h hmem => ?_)
    rw [Function.comp_apply, rampSignal_block i.isLt,
      (selectedAfter_spec std r states (hwell h hmem) out t).2.2]
    rfl

/-- A source that stays to the right, inside the semicircle. -/
noncomputable def right : History ℝ 4 :=
  { position := fun _ => ⟨1, 0⟩, weightingFactor := fun _ => 1, samples := fun _ _ => 1 }

theorem rendererAt_semicircle (t : ℕ) :
    (rendererAt (SortBy.merge _) semicircleRenderer (fun _ => offsetState 0 0) t).sortedLoudspeakers =
        semicircleRenderer.sortedLoudspeakers ∧
      (rendererAt (SortBy.merge _) semicircleRenderer (fun _ => offsetState 0 0)
        t).referenceOffsetPosition.current = semicircleRenderer.referenceOffsetPosition.current := by
  induction t with
  | zero => exact ⟨rfl, rfl⟩
  | succ t ih =>
    rw [rendererAt]
    exact ⟨(process_unchanged (blockOffset_origin.trans ih.2.symm)).trans ih.1,
      (current_process _ _).trans blockOffset_origin⟩

/-- The loudspeaker in the direction of that source. -/
def rightLoudspeaker : Fin semicircle.length := (Fin.last 0).castSucc.castSucc

theorem weightsAt_right (t : ℕ) : weightsAt (SortBy.merge _) semicircleRenderer
    (fun _ => offsetState 0 0) right t =
      some (⟨some rightLoudspeaker, 1⟩, ⟨some (Fin.last 1).castSucc, 0⟩) := by
  have htable := (rendererAt_semicircle (t + 1)).1
  rw [rendererAt] at htable
  rw [weightsAt, rendererAt]
  dsimp only [right]
  rw [incidenceAngle_right, htable]
  exact weights_semicircleTable _

theorem gainAt_right (t : ℕ) : gainAt (SortBy.merge _) semicircleRenderer (fun _ => offsetState 0 0)
    rightLoudspeaker right (t + 1) = 1 := by
  rw [gainAt_succ _ _ _ (weightsAt_right t), getWeight, if_pos rfl, one_mul]
  rfl

/-- The loudspeaker is faded in in the first block. -/
theorem output_gain_semicircle :
    (∃ buffer', outputAt (SortBy.merge _) semicircleRenderer (fun _ => offsetState 0 0)
        rightLoudspeaker [right] { buffer := fun _ => 0, accumulate := false } 0 = some buffer' ∧
      ∀ i, buffer'.buffer i = (i : ℕ) / 4) ∧
    ∀ t, ∃ p q, ∀ ls,
      gainAt (SortBy.merge _) semicircleRenderer (fun _ => offsetState 0 0) ls right t ≠ 0 →
        some ls = p ∨ some ls = q := by
  have hwell : ∀ h ∈ [right], ∀ t, WellDefined (weightsAt (SortBy.merge _) semicircleRenderer
      (fun _ => offsetState 0 0) h t) := by
    intro h hmem t
    obtain rfl := List.mem_singleton.1 hmem
    have hptr : (Fin.last 0).castSucc.castSucc ≠ (Fin.last 1).castSucc := by decide
    rw [weightsAt_right]
    exact ⟨_, _, rfl, .inl fun h => hptr (Option.some.inj h)⟩
  obtain ⟨⟨buffer', hbuffer, hout⟩, hpair⟩ := output_gain (SortBy.merge _) semicircleRenderer
    (fun _ => offsetState 0 0) rightLoudspeaker hwell { buffer := fun _ => 0, accumulate := false } 0
  refine ⟨⟨buffer', hbuffer, fun i => ?_⟩, hpair right (List.mem_singleton_self _)⟩
  have hdiv : (0 * 4 + (i : ℕ)) / 4 = 0 := by omega
  have hmod : (0 * 4 + (i : ℕ)) % 4 = i := by omega
  rw [hout, List.map_singleton, List.sum_singleton, rampSignal, hdiv, hmod, gainAt_right]
  simp [gainAt, ramp, right, div_eq_mul_inv]

end VbapRenderer

end Ssr
