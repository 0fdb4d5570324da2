import Ssr.Apf.Cascade
import Ssr.Renderer.HoaCoefficients
import Ssr.Renderer.NfcHoaRenderer
import Ssr.Renderer.RenderSource
import Ssr.Scene.Geometry

/-!
# The signals of NFC-HOA (`nfchoarenderer.h`)

A source has a mode for each order. In each block the mode filters the samples of the source; the
mode accumulators multiply the result with the two rotations of the mode and add up the modes of all
sources. `float` and `double` are one type `T`. The impossible values that force an update in the
first block are `none`.
-/

set_option autoImplicit false

namespace Ssr.NfcHoaRenderer

open Apf CombineChannels

variable {T : Type} {n : ℕ}

structure Source (T : Type) (n : ℕ) where
  base : RenderSource T n
  distance : BlockParameter T
  angle : BlockParameter (Option T)
  sourceModel : BlockParameter (Option SourceType)

/-- `Mode`, whose buffer has the samples of one block. -/
structure Mode (T : Type) (n : ℕ) where
  rotation1 : T
  rotation2 : T
  oldRotation1 : T
  oldRotation2 : T
  interpolationMode : CombineChannelsResult
  modeNumber : ℕ
  filter : Cascade T T
  coefficients : HoaCoefficients T
  oldCoefficients : HoaCoefficients T
  buffer : List T

variable [DivisionRing T] [LinearOrder T] [CMath T]

/-! ## Sources -/

def Source.new (base : RenderSource T n) : Source T n :=
  { base, distance := .new (-1), angle := .new none, sourceModel := .new none }

/-- `Process`, after the one of the base class. -/
def Source.process (state : RenderState T) (source : Source T n) : Source T n :=
  let data := source.base.data
  let relative := data.position.sub state.referencePosition
  let distance := source.distance.assign relative.length
  let quarter : T := (90 : ℕ)
  let angle (sourceOrientation : Orientation T) :=
    source.angle.assign
      (some (deg2rad (quarter + (sourceOrientation.sub state.referenceOrientation).azimuth)))
  match data.model with
  | .plane =>
    -- no distance attenuation for plane waves
    { source with
      distance
      sourceModel := source.sourceModel.assign (some .planeWave)
      angle := angle (data.orientation.sub ⟨((180 : ℕ) : T)⟩) }
  | _ =>
    let distanceLimit : T := 1 / (4 : ℕ)
    let attenuation := CMath.sqrt (distanceLimit / max distance.current distanceLimit)
    { base :=
        { source.base with weightingFactor := source.base.weightingFactor.mulAssign attenuation }
      distance
      sourceModel := source.sourceModel.assign (some .pointSource)
      angle := angle relative.orientation }

/-! ## Modes -/

namespace Mode

/-- `dp::ac<double>` -/
def denormals : DenormalPrevention T T := dp.ac (1 / (10 ^ 30 : ℕ))

/-- The constructor. -/
def new (maxSize modeNumber sampleRate : ℕ) (arrayRadius speedOfSound : T) :
    Except HoaCoefficients.Error (Mode T n) := do
  let coefficients ← HoaCoefficients.new maxSize modeNumber sampleRate arrayRadius speedOfSound
  return {
    rotation1 := 0, rotation2 := 0, oldRotation1 := 0, oldRotation2 := 0
    interpolationMode := .nothing, modeNumber
    filter := .new denormals (Ssr.Mode.filterSections modeNumber)
    coefficients, oldCoefficients := coefficients
    buffer := List.replicate n 0 }

/-- `interp_coeffs` -/
def interpolate (index blockSize : T) (first second : SosCoefficients T) : SosCoefficients T :=
  first.add (((second.sub first).mul index).div blockSize)

/-- The loop over the samples, from `index` on; `none` if the assertion of `set` fails. -/
def filterSamples (old new : List (SosCoefficients T)) (blockSize : T) :
    Cascade T T → T → List T → Option (Cascade T T × List T)
  | filter, _, [] => some (filter, [])
  | filter, index, input :: block => do
    let (filter, output) := filter.call denormals input
    let coefficients := old.zipWith (interpolate index blockSize) new
    if filter.fits coefficients then
      let (filter, outputs) ← filterSamples old new blockSize (filter.set coefficients) (index + 1) block
      return (filter, output :: outputs)
    else none

variable (table : List (T × T)) (arrayRadius : T)

/-- The first part of `_process`: the filter. -/
def processFilter (source : Source T n) (mode : Mode T n) : Option (Mode T n) :=
  let block := List.ofFn source.base.samples
  if !source.distance.changed && !source.sourceModel.changed then
    -- process filter (entire block)
    let (filter, buffer) := mode.filter.execute denormals block
    some { mode with filter, buffer }
  else do
    let oldCoefficients := { mode.oldCoefficients with sections := mode.coefficients.sections }
    let coefficients := { mode.coefficients with sections := mode.oldCoefficients.sections }
    -- avoid focused sources
    let distance := max source.distance.current arrayRadius
    let coefficients ← coefficients.reset table distance (← source.sourceModel.current)
    let (filter, buffer) ← filterSamples oldCoefficients.sections coefficients.sections (n : T)
      mode.filter 1 block
    return { mode with filter, buffer, coefficients, oldCoefficients }

/-- The second part: the rotations. -/
def rotate (source : Source T n) (mode : Mode T n) : Option (Mode T n) := do
  let mode := { mode with oldRotation1 := mode.rotation1, oldRotation2 := mode.rotation2 }
  if source.angle.changed then
    let angle ← source.angle.current
    return { mode with
      rotation1 := CMath.cos (-(mode.modeNumber : T) * angle)
      rotation2 := CMath.sin ((mode.modeNumber : T) * angle) }
  else return mode

/-- The third part: what the mode accumulators shall do. -/
def selectInterpolation (source : Source T n) : CombineChannelsResult :=
  if source.base.weightingFactor.bothEq 0 then .nothing
  else if source.base.weightingFactor.changed || source.angle.changed || source.distance.changed ||
    source.sourceModel.changed then .change
  else .constant

/-- `_process` -/
def process (source : Source T n) (mode : Mode T n) : Option (Mode T n) := do
  let mode ← mode.processFilter table arrayRadius source
  let mode ← mode.rotate source
  return { mode with interpolationMode := selectInterpolation source }

end Mode

/-! ## Mode accumulators -/

/-- The function object. -/
structure RenderFunction (T : Type) where
  rotation1 : T
  rotation2 : T
  interpolator1 : LinearInterpolator T
  interpolator2 : LinearInterpolator T

/-- The constructor; the members are set before they are used. -/
def RenderFunction.new : RenderFunction T :=
  { rotation1 := 0, rotation2 := 0, interpolator1 := .new, interpolator2 := .new }

/-- A mode and its source, in one block. -/
structure Item (T : Type) (n : ℕ) where
  source : Source T n
  mode : Mode T n

/-- `RenderFunction::select` -/
def select (f : RenderFunction T) (item : Item T n) :
    RenderFunction T × Item T n × CombineChannelsResult :=
  let weightingFactor := item.source.base.weightingFactor
  let mode := item.mode
  let f : RenderFunction T :=
    match mode.interpolationMode with
    | .change =>
      { f with
        interpolator1 := .range (mode.oldRotation1 * weightingFactor.old)
          (mode.rotation1 * weightingFactor.current) (n : T)
        interpolator2 := .range (mode.oldRotation2 * weightingFactor.old)
          (mode.rotation2 * weightingFactor.current) (n : T) }
    | .constant =>
      { f with
        rotation1 := mode.rotation1 * weightingFactor.current
        rotation2 := mode.rotation2 * weightingFactor.current }
    | _ => f
  (f, item, mode.interpolationMode)

def renderFunction : InterpolationObject (RenderFunction T) (Item T n) T (T × T) :=
  { select
    transform := fun f x => (x * f.rotation1, x * f.rotation2)
    interpolate := fun f x index => (x * f.interpolator1.call index, x * f.interpolator2.call index) }

/-- `ModeAccumulator::process`: the samples of the channels of the positive and the negative mode. -/
def processAccumulator (items : List (Item T n)) (outputChannels : Target n (T × T)) :
    Option (Target n (T × T) × List (Item T n)) :=
  interpolation renderFunction (fun item i => item.mode.buffer.getD i 0) RenderFunction.new items
    outputChannels

end Ssr.NfcHoaRenderer
