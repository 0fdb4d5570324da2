import Ssr.Renderer.LoudspeakerRenderer
import Ssr.Renderer.RenderSource

/-!
# Ambisonics amplitude panning (`aaprenderer.h`)

Each output has a channel for each source, which keeps the weight of the last block. The amplitude
reference distance is positive: it is 3 at first, and the `Controller` rejects all values up to 1.
-/

set_option autoImplicit false

namespace Ssr

open Apf CombineChannels

variable {T : Type} {n : ℕ}

structure AapRenderer where
  ambisonicsOrder : ℕ
  inPhaseRendering : Bool

namespace AapRenderer

/-- `load_reproduction_setup`, when the setup has been loaded; `none` if the assertion fails. -/
def loadReproductionSetup (r : AapRenderer) (outputs : List (LoudspeakerOutput T)) :
    Except String (Option AapRenderer) :=
  let normalLoudspeakers := (outputs.filter fun out => out.model ≠ .subwoofer).length
  if normalLoudspeakers < 1 then .error "No loudspeakers found!"
  else
    let ambisonicsOrder :=
      if r.ambisonicsOrder = 0 then (normalLoudspeakers - 1) / 2 else r.ambisonicsOrder
    .ok (if 0 < ambisonicsOrder then some { r with ambisonicsOrder } else none)

structure SourceChannel (T : Type) (n : ℕ) where
  /-- `source`, as it is in this block -/
  source : RenderSource T n
  storedWeight : BlockParameter T

/-- The function object. -/
structure RenderFunction (T : Type) where
  weight : T
  interpolator : LinearInterpolator T

variable [DivisionRing T] [LinearOrder T] [CMath T]

/-- The constructor; the members are set before they are used. -/
def RenderFunction.new : RenderFunction T := { weight := 0, interpolator := .new }

/-- The panning function, for a loudspeaker in the direction `alpha0` and a plane wave from the
direction `thetaPw`. -/
def panning (r : AapRenderer) (alpha0 thetaPw : T) : T :=
  let two : T := (2 : ℕ)
  let twoTimesOrder : T := (2 * r.ambisonicsOrder : ℕ)
  if r.inPhaseRendering then CMath.cos ((alpha0 - thetaPw) / two) ^ (2 * r.ambisonicsOrder)
  -- check numerical stability
  else if |CMath.sin ((alpha0 - thetaPw) / two)| < 1 / (10000 : ℕ) then 1
  else
    CMath.sin ((twoTimesOrder + 1) * (alpha0 - thetaPw) / two) /
      ((twoTimesOrder + 1) * CMath.sin ((alpha0 - thetaPw) / two))

/-- The angles of the loudspeaker and of the source. -/
def angles (state : RenderState T) (out : LoudspeakerOutput T) (position : Position T) : T × T :=
  (deg2rad out.position.orientation.azimuth,
    deg2rad ((position.sub state.referencePosition).orientation.sub state.referenceOrientation).azimuth)

/-- The weight that `RenderFunction::select` computes. -/
def weight (r : AapRenderer) (state : RenderState T) (out : LoudspeakerOutput T)
    (source : RenderSource T n) : T :=
  let half : T := 1 / (2 : ℕ)
  let weightingFactor : T :=
    if out.model = .normal then
      let (alpha0, thetaPw) := angles state out source.data.position
      r.panning alpha0 thetaPw
    else 1
  let weightingFactor :=
    -- no distance attenuation for plane waves
    if source.data.model = .plane then weightingFactor * (half / state.amplitudeReferenceDistance)
    else
      let sourceDistance := (source.data.position.sub state.referencePosition).length
      -- no volume increase for sources closer than 0.5m to reference position
      let sourceDistance := max sourceDistance half
      weightingFactor * (half / sourceDistance)
  weightingFactor * source.weightingFactor.current

/-- `RenderFunction::select` -/
def select (r : AapRenderer) (state : RenderState T) (out : LoudspeakerOutput T)
    (f : RenderFunction T) (channel : SourceChannel T n) :
    RenderFunction T × SourceChannel T n × CombineChannelsResult :=
  let weightingFactor := r.weight state out channel.source
  let channel := { channel with storedWeight := channel.storedWeight.assign weightingFactor }
  let oldWeight := channel.storedWeight.old
  if oldWeight = 0 ∧ weightingFactor = 0 then (f, channel, .nothing)
  else if oldWeight = weightingFactor then ({ f with weight := weightingFactor }, channel, .constant)
  else ({ f with interpolator := .range oldWeight weightingFactor (n : T) }, channel, .change)

def renderFunction (r : AapRenderer) (state : RenderState T) (out : LoudspeakerOutput T) :
    InterpolationObject (RenderFunction T) (SourceChannel T n) T T :=
  { select := r.select state out
    transform := fun f x => x * f.weight
    interpolate := fun f x index => x * f.interpolator.call index }

/-- `Output::Process`; the channels are returned with their new weights. -/
def processOutput (r : AapRenderer) (state : RenderState T) (out : LoudspeakerOutput T)
    (sourcechannels : List (SourceChannel T n)) (buffer : Target n T) :
    Option (Target n T × List (SourceChannel T n)) :=
  interpolation (r.renderFunction state out) (fun channel => channel.source.samples)
    RenderFunction.new sourcechannels buffer

end AapRenderer

end Ssr
