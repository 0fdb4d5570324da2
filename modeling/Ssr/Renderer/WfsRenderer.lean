import Ssr.Apf.BlockDelayLine
import Ssr.Apf.CombineChannels
import Ssr.Renderer.Command
import Ssr.Renderer.LoudspeakerRenderer

/-!
# Wave field synthesis (`wfsrenderer.h`)

Each output has a channel for each source, which reads from the delay line of the source. In each
block `select` computes a weight and a delay for the channel, by the geometry of the source, the
loudspeaker and the reference (`drive`), and says whether the channel has to be faded over from the
old weight and delay. What a failed assertion would stop is not computed (`processOutput`).
-/

set_option autoImplicit false

namespace Ssr

open Apf CombineChannels

/-- The members of the renderer that do not change, and the globals that it uses. -/
structure WfsRenderer (T : Type) where
  sampleRate : ℕ
  /-- `c_inverse` -/
  cInverse : T
  /-- `static_cast<int>`; outside of the range of `int` it may be anything. -/
  toInt : T → Int32

namespace WfsRenderer

variable {T : Type} {n k : ℕ}

/-- A source in one block. -/
structure Source (T : Type) where
  /-- the shared data -/
  data : SourceData T
  weightingFactor : BlockParameter T
  focused : Bool
  delayline : NonCausalBlockDelayLine T

/-- `SourceChannel`, with the circulators as indices. -/
structure SourceChannel (T : Type) where
  weightingFactor : BlockParameter T
  delay : BlockParameter ℤ
  /-- `_begin` -/
  first : ℕ
  /-- `_end` -/
  last : ℕ

/-- The constructor. -/
def SourceChannel.new [Zero T] : SourceChannel T :=
  { weightingFactor := .new 0, delay := .new 0, first := 0, last := 0 }

/-- `get_read_circulator` of a `NonCausalBlockDelayLine`. -/
def readCirculator (l : NonCausalBlockDelayLine T) (delay : ℤ) : ℕ :=
  l.toBlockDelayLine.getReadCirculator (toSize (delay + l.initialDelay))

/-- Set the range to a block that begins at `delay`. -/
def SourceChannel.readAt (channel : SourceChannel T) (l : NonCausalBlockDelayLine T) (delay : ℤ) :
    SourceChannel T :=
  let first := readCirculator l delay
  { channel with first, last := circularAdd l.size first (toDifference l.blockSize) }

/-- `update` -/
def SourceChannel.update (channel : SourceChannel T) (l : NonCausalBlockDelayLine T) :
    SourceChannel T :=
  channel.readAt l channel.delay.current

/-- What is read from `begin()` to `end()`. -/
def SourceChannel.samples [Zero T] (channel : SourceChannel T) (l : NonCausalBlockDelayLine T) :
    Samples n T :=
  let samples := l.copy (circularDistance l.size channel.last channel.first) channel.first
  fun i => samples.getD i 0

/-! ## The geometry -/

section
variable [DivisionRing T] [LinearOrder T] [CMath T]

def reference (state : RenderState T) : DirectionalPoint T :=
  ⟨state.referencePosition, state.referenceOrientation⟩

/-- `ref_off` -/
def referenceOffset (state : RenderState T) : DirectionalPoint T :=
  (reference state).transform ⟨state.referenceOffsetPosition, state.referenceOffsetOrientation⟩

/-- The loudspeaker of an output. -/
def loudspeaker (state : RenderState T) (out : LoudspeakerOutput T) : DirectionalPoint T :=
  DirectionalPoint.transform ⟨out.position, out.orientation⟩ (reference state)

/-- `Source::_process`: no loudspeaker turns its back to the source. -/
def focused (state : RenderState T) (outputs : List (LoudspeakerOutput T)) (data : SourceData T) :
    Bool :=
  let two : T := (2 : ℕ)
  let three : T := (3 : ℕ)
  if data.model = .plane then false
  else outputs.all fun out =>
    -- subwoofers have to be ignored
    out.model = .subwoofer ||
      let ls := loudspeaker state out
      let a := wrapTwoPi (angleOf (ls.position.sub data.position) ls.orientation)
      let halfPi := CMath.pi / two
      !(a < halfPi || a > three * halfPi)

/-- The case of a point source in `select`: the weight, and the delay in metres. -/
def drivePoint (model : LoudspeakerModel) (focused : Bool)
    (ls referenceOffset : DirectionalPoint T) (source : Position T) : T × T :=
  let safetyRadius : T := 1 / (100 : ℕ)
  if model = .subwoofer then
    let floatDelay := (source.sub referenceOffset.position).length -
      (ls.position.sub referenceOffset.position).length
    if |floatDelay| < safetyRadius then (1 / CMath.sqrt safetyRadius, floatDelay)
    else (1 / CMath.sqrt |floatDelay|, floatDelay)
  else
    let floatDelay := (ls.position.sub source).length
    let denominator :=
      if floatDelay < safetyRadius then CMath.sqrt safetyRadius else CMath.sqrt floatDelay
    let weightingFactor :=
      CMath.cos (angleOf (ls.position.sub source) ls.orientation) / denominator
    if weightingFactor < 0 then
      if focused then
        let lhs := ls.position.sub source
        let rhs := referenceOffset.position.sub source
        if lhs.x * rhs.x + lhs.y * rhs.y < 0 then (-weightingFactor, -floatDelay)
        else (0, floatDelay)
      else (0, floatDelay)
    -- also if the source is focused
    else (weightingFactor, floatDelay)

/-- The case of a plane wave. -/
def drivePlane (model : LoudspeakerModel) (ls referenceOffset source : DirectionalPoint T) : T × T :=
  if model = .subwoofer then
    (1, source.planeToPointDistance referenceOffset.position -
      (ls.position.sub referenceOffset.position).length)
  else
    let weightingFactor := CMath.cos (angle source.orientation ls.orientation)
    if weightingFactor < 0 then (0, 0)
    else (weightingFactor, source.planeToPointDistance ls.position)

/-- The weight and the delay in metres, by the model of the source. -/
def driveModel (state : RenderState T) (out : LoudspeakerOutput T) (data : SourceData T)
    (focused : Bool) : T × T :=
  let ls := loudspeaker state out
  match data.model with
  | .point => drivePoint out.model focused ls (referenceOffset state) data.position
  | .plane => drivePlane out.model ls (referenceOffset state) ⟨data.position, data.orientation⟩
  -- unknown source model
  | _ => (1, 0)

/-- `weighting_factor` and `float_delay` in `select`, as they are before the assertion. -/
def drive (state : RenderState T) (out : LoudspeakerOutput T) (source : Source T) : T × T :=
  let half : T := 1 / (2 : ℕ)
  let (weightingFactor, floatDelay) := driveModel state out source.data source.focused
  let weightingFactor :=
    -- no distance attenuation for plane waves
    if source.data.model = .plane then weightingFactor * (half / state.amplitudeReferenceDistance)
    else
      let sourceDistance :=
        (source.data.position.sub (referenceOffset state).position).length
      -- no volume increase for sources closer than 0.5m to reference position
      weightingFactor * (half / max sourceDistance half)
  (weightingFactor * source.weightingFactor.current * out.weight, floatDelay)

/-- The assertions of `select`. -/
def Asserted (state : RenderState T) (out : LoudspeakerOutput T) (source : Source T) : Prop :=
  (source.data.model = .plane → 0 < state.amplitudeReferenceDistance) ∧
    0 ≤ (drive state out source).1

instance (state : RenderState T) (out : LoudspeakerOutput T) (source : Source T) :
    Decidable (Asserted state out source) := inferInstanceAs (Decidable (_ ∧ _))

end

/-! ## The channels of an output -/

/-- The members of `RenderFunction`; `in_` is the channel that has been selected. -/
structure RenderFunction (T : Type) (k : ℕ) where
  oldFactor : T
  newFactor : T
  in_ : Option (Fin k)

/-- The constructor; the factors are set before they are used. -/
def RenderFunction.new [Zero T] : RenderFunction T k := { oldFactor := 0, newFactor := 0, in_ := none }

/-- The function object, and the channels, which it changes. -/
structure Channels (T : Type) (k : ℕ) where
  function : RenderFunction T k
  channels : Fin k → SourceChannel T

/-- Put back a channel. -/
def Channels.set (c : Channels T k) (i : Fin k) (channel : SourceChannel T) : Channels T k :=
  { c with channels := fun j => if j = i then channel else c.channels j }

section
variable [DivisionRing T] [LinearOrder T] [CMath T] (r : WfsRenderer T) (state : RenderState T)
  (out : LoudspeakerOutput T)

/-- The weight and the delay that `select` stores. -/
def stored (source : Source T) : T × ℤ :=
  let half : T := 1 / (2 : ℕ)
  let (weightingFactor, floatDelay) := drive state out source
  let floatDelay := floatDelay * r.cInverse * (r.sampleRate : T)
  let intDelay := (r.toInt (floatDelay + half)).toInt
  if source.delayline.delayIsValid intDelay then (weightingFactor, intDelay) else (0, 0)

/-- The mode that `select` returns. -/
def crossfadeMode (channel : SourceChannel T) : CombineChannelsResult :=
  let oldFactor := channel.weightingFactor.old
  let newFactor := channel.weightingFactor.current
  if oldFactor = 0 ∧ newFactor = 0 then .nothing
  else if oldFactor = newFactor ∧ !channel.delay.changed then .constant
  else if oldFactor = 0 then .fadeIn
  else if newFactor = 0 then .fadeOut
  else .change

/-- What `select` does with a channel. -/
def SourceChannel.select (channel : SourceChannel T) (source : Source T) :
    SourceChannel T × CombineChannelsResult :=
  let (weightingFactor, delay) := r.stored state out source
  let channel := { channel with
    delay := channel.delay.assign delay
    weightingFactor := channel.weightingFactor.assign weightingFactor }
  let mode := crossfadeMode channel
  -- no need to read the delay line
  if mode = .nothing ∨ mode = .fadeIn then (channel, mode)
  else (channel.readAt source.delayline channel.delay.old, mode)

variable (sources : Fin k → Source T)

/-- `RenderFunction::select` -/
def select (c : Channels T k) (i : Fin k) : Channels T k × CombineChannelsResult :=
  let (channel, mode) := (c.channels i).select r state out (sources i)
  let function : RenderFunction T k :=
    { oldFactor := channel.weightingFactor.old, newFactor := channel.weightingFactor.current,
      in_ := some i }
  ({ c.set i channel with function }, mode)

/-- `RenderFunction::update`, of the channel that has been selected. -/
def update (c : Channels T k) : Channels T k :=
  match c.function.in_ with
  | some i => c.set i ((c.channels i).update (sources i).delayline)
  | none => c

def functionObject : FunctionObject (Channels T k) (Fin k) :=
  { select := r.select state out sources
    update := fun c _ => update sources c }

/-- `Output::Process`: the buffers and the channels after a block, if no assertion fails. -/
def processOutput (fade : Fade n T) (channels : List (Fin k)) (c : Fin k → SourceChannel T)
    (b : Buffers n T) : Option (Buffers n T × (Fin k → SourceChannel T)) :=
  if ∀ i ∈ channels, Asserted state out (sources i) then
    let (c, b) := crossfade (r.functionObject state out sources)
      (fun c i => (c.channels i).samples (sources i).delayline)
      (fun c x => x * c.function.newFactor) (fun c x => x * c.function.oldFactor)
      fade channels { function := .new, channels := c } b
    some (b, c.channels)
  else none

end

end WfsRenderer

end Ssr
