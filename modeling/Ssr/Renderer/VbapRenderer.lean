import Ssr.Apf.Crossfade
import Ssr.Apf.Interpolation
import Ssr.Lib.Run
import Ssr.Lib.Sorted
import Ssr.Renderer.Command
import Ssr.Renderer.LoudspeakerRenderer

/-!
# Vector base amplitude panning (`vbaprenderer.h`)

The renderer keeps a table of its loudspeakers, sorted by their angles as seen from the reference
offset. A source looks up the two neighbouring loudspeakers that enclose its direction and gets a
weight for each of them. The outputs are known by their numbers. `std::sort` is a parameter, since it
leaves the order of equal angles open. A function that divides by zero, or whose assertion fails, has
no result.
-/

set_option autoImplicit false

namespace Ssr

open Apf Lib

variable {T : Type} [DivisionRing T] [LinearOrder T] [CMath T]

namespace VbapRenderer

structure LoudspeakerEntry (T : Type) (n : ℕ) where
  /-- in radians -/
  angle : T
  validSection : Bool
  lsPtr : Fin n

structure LoudspeakerWeight (T : Type) (n : ℕ) where
  lsPtr : Option (Fin n)
  weight : T

variable {n : ℕ}

def LoudspeakerWeight.new : LoudspeakerWeight T n := { lsPtr := none, weight := 0 }

/-! ## The table -/

/-- The angle of a loudspeaker in `_update_angles`. -/
def loudspeakerAngle (position referenceOffset : Position T) : T :=
  wrapTwoPi (deg2rad (position.sub referenceOffset).orientation.azimuth)

/-- `_update_valid_sections` -/
def updateValidSections (maxAngle : T) (table : List (LoudspeakerEntry T n)) :
    List (LoudspeakerEntry T n) :=
  table.mapIdx fun i ls =>
    match table[i + 1]?, table.head? with
    | some next, _ => { ls with validSection := decide (next.angle ≤ ls.angle + maxAngle) }
    | none, some front =>
      { ls with validSection := decide (front.angle + deg2rad ((360 : ℕ) : T) ≤ ls.angle + maxAngle) }
    | none, none => ls

/-- The entry at the circular iterator `bound`, and the one before it. -/
def circularPair (table : List (LoudspeakerEntry T n)) (bound : ℕ) :
    Option (LoudspeakerEntry T n × LoudspeakerEntry T n) := do
  let second := if bound = table.length then 0 else bound
  let first := if second = 0 then table.length - 1 else second - 1
  return (← table[first]?, ← table[second]?)

/-- `first` and `second` in `Source::Process`, found by `std::upper_bound`. -/
def chosenPair (table : List (LoudspeakerEntry T n)) (incidenceAngle : T) :
    Option (LoudspeakerEntry T n × LoudspeakerEntry T n) :=
  circularPair table (upperBound (table.map (·.angle)) incidenceAngle)

/-! ## The weights -/

/-- Division, where the divisor may be zero. -/
def divide (a b : T) : Option T := if b = 0 then none else some (a / b)

/-- `raised_cosine::operator()` -/
def raisedCosine (period x : T) : Option T := do
  let two : T := (2 : ℕ)
  let half := 1 / two
  let x ← divide (x * two * CMath.pi) period
  return CMath.cos x * half + half

/-- The weight of a loudspeaker that is `overhang` away from the source. -/
def overhangWeight (maxOverhang overhang : T) (ls : LoudspeakerEntry T n) :
    Option (LoudspeakerWeight T n) :=
  let two : T := (2 : ℕ)
  if overhang < maxOverhang then
    (raisedCosine (two * maxOverhang) overhang).map ({ lsPtr := some ls.lsPtr, weight := · })
  else some .new

/-- `_calculate_loudspeaker_weights` -/
def calculateLoudspeakerWeights (overhangAngle sourceAngle : T) (first second : LoudspeakerEntry T n) :
    Option (LoudspeakerWeight T n × LoudspeakerWeight T n) :=
  let two : T := (2 : ℕ)
  if first.validSection then do
    let phi0 := wrapTwoPi (second.angle - first.angle) / two
    let phi := wrapTwoPi (sourceAngle - first.angle - phi0)
    let num1 := CMath.cos phi * CMath.sin phi0
    let num2 := CMath.sin phi * CMath.cos phi0
    let den := two * CMath.cos phi0 * CMath.sin phi0
    let secondWeight ← divide (num1 + num2) den
    let firstWeight ← divide (num1 - num2) den
    return (⟨some first.lsPtr, firstWeight⟩, ⟨some second.lsPtr, secondWeight⟩)
  else do
    let firstWeight ← overhangWeight overhangAngle (wrapTwoPi (sourceAngle - first.angle)) first
    let secondWeight ← overhangWeight overhangAngle (wrapTwoPi (second.angle - sourceAngle)) second
    return (firstWeight, secondWeight)

/-- The weights of a source in the direction `incidenceAngle`. -/
def loudspeakerWeights (overhangAngle : T) (table : List (LoudspeakerEntry T n)) (incidenceAngle : T) :
    Option (LoudspeakerWeight T n × LoudspeakerWeight T n) := do
  let (first, second) ← chosenPair table incidenceAngle
  calculateLoudspeakerWeights overhangAngle incidenceAngle first second

/-- What `RenderFunction::select` returns, with the weights that it stores. -/
inductive Selection (T : Type)
  | nothing
  | constant (weight : T)
  | change (oldWeight newWeight : T)

/-- `get_weight` -/
def getWeight (out : Fin n) (first second : LoudspeakerWeight T n) : T :=
  if first.lsPtr = some out then first.weight
  else if second.lsPtr = some out then second.weight
  else 0

/-- `RenderFunction::select` -/
def select (out : Fin n) (first second : BlockParameter (LoudspeakerWeight T n)) :
    Option (Selection T) :=
  if first.current.lsPtr ≠ second.current.lsPtr ∨ first.current.lsPtr = none then
    let oldWeight := getWeight out first.old second.old
    let newWeight := getWeight out first.current second.current
    some <|
      if oldWeight = 0 ∧ newWeight = 0 then .nothing
      else if oldWeight = newWeight then .constant newWeight
      else .change oldWeight newWeight
  else none

end VbapRenderer

/-! ## The renderer -/

/-- The renderer of a setup with the loudspeakers `outputs`. -/
structure VbapRenderer (outputs : List (LoudspeakerOutput T)) where
  maxAngle : T
  overhangAngle : T
  sortedLoudspeakers : List (VbapRenderer.LoudspeakerEntry T outputs.length)
  referenceOffsetPosition : BlockParameter (Position T)
  absoluteReferenceOffsetPosition : Position T

namespace VbapRenderer

variable {outputs : List (LoudspeakerOutput T)}
  (std : SortBy (LoudspeakerEntry.angle (T := T) (n := outputs.length)))

/-- The constructor, with the parameters `vbap_max_angle` and `vbap_overhang_angle`. -/
def new (maxAngle overhangAngle : Option T) : VbapRenderer outputs :=
  { maxAngle := maxAngle.getD (deg2rad ((180 : ℕ) : T))
    overhangAngle := overhangAngle.getD (deg2rad ((30 : ℕ) : T))
    sortedLoudspeakers := []
    referenceOffsetPosition := .new ⟨0, 0⟩
    absoluteReferenceOffsetPosition := ⟨0, 0⟩ }

/-- `_update_angles` -/
def updateAngles (r : VbapRenderer outputs) : VbapRenderer outputs :=
  { r with
    sortedLoudspeakers := r.sortedLoudspeakers.map fun ls =>
      { ls with
        angle := loudspeakerAngle (outputs.get ls.lsPtr).position r.referenceOffsetPosition.current } }

def sortLoudspeakers (r : VbapRenderer outputs) : VbapRenderer outputs :=
  { r with sortedLoudspeakers := std.sort r.sortedLoudspeakers }

def updateSections (r : VbapRenderer outputs) : VbapRenderer outputs :=
  { r with sortedLoudspeakers := updateValidSections r.maxAngle r.sortedLoudspeakers }

/-- `_sorted_loudspeakers.back() < _sorted_loudspeakers.front()` -/
def backLtFront (r : VbapRenderer outputs) : Bool :=
  match r.sortedLoudspeakers.getLast?, r.sortedLoudspeakers.head? with
  | some back, some front => back.angle < front.angle
  | _, _ => false

/-- `load_reproduction_setup`, when the setup has been loaded. -/
def loadReproductionSetup (r : VbapRenderer outputs) : Except String (VbapRenderer outputs) :=
  let entries := ((List.finRange outputs.length).filter fun out =>
    (outputs.get out).model ≠ .subwoofer).map fun out =>
      { angle := 0, validSection := false, lsPtr := out }
  let r := { r with sortedLoudspeakers := r.sortedLoudspeakers ++ entries }
  if r.sortedLoudspeakers.length < 1 then .error "No loudspeakers found!"
  else .ok (r.updateAngles.sortLoudspeakers std).updateSections

/-- `Process` before the sources are processed. -/
def process (r : VbapRenderer outputs) (state : RenderState T) : VbapRenderer outputs :=
  let quarter : T := (90 : ℕ)
  let temp := state.referenceOffsetPosition.rotate (-quarter)
  let r := { r with referenceOffsetPosition := r.referenceOffsetPosition.assign temp }
  let r :=
    if r.referenceOffsetPosition.changed then
      let r := r.updateAngles
      let r := if r.backLtFront then r.sortLoudspeakers std else r
      r.updateSections
    else r
  { r with
    absoluteReferenceOffsetPosition :=
      (r.referenceOffsetPosition.current.rotate state.referenceOrientation.azimuth).add
        state.referencePosition }

/-! ## The sources -/

structure Source (T : Type) (n : ℕ) where
  position : Position T
  weightingFactor : T
  firstWeight : BlockParameter (LoudspeakerWeight T n)
  secondWeight : BlockParameter (LoudspeakerWeight T n)

def incidenceAngle (r : VbapRenderer outputs) (state : RenderState T) (position : Position T) : T :=
  wrapTwoPi (deg2rad (((position.sub r.absoluteReferenceOffsetPosition).orientation).sub
    state.referenceOrientation).azimuth)

/-- `Source::Process` -/
def Source.process (r : VbapRenderer outputs) (state : RenderState T)
    (source : Source T outputs.length) : Option (Source T outputs.length) := do
  let (first, second) ← loudspeakerWeights r.overhangAngle r.sortedLoudspeakers
    (r.incidenceAngle state source.position)
  let first := { first with weight := first.weight * source.weightingFactor }
  let second := { second with weight := second.weight * source.weightingFactor }
  return { source with
    firstWeight := source.firstWeight.assign first
    secondWeight := source.secondWeight.assign second }

/-! ## The outputs -/

/-- The members of `RenderFunction`. -/
structure RenderFunction (T : Type) where
  weight : T
  interpolator : LinearInterpolator T

/-- The constructor; the members are set before they are used. -/
def RenderFunction.new : RenderFunction T := { weight := 0, interpolator := .new }

/-- What `select` stores, and what it returns. -/
def RenderFunction.store (blockSize : ℕ) (f : RenderFunction T) :
    Selection T → RenderFunction T × CombineChannelsResult
  | .nothing => (f, .nothing)
  | .constant weight => ({ f with weight }, .constant)
  | .change oldWeight newWeight =>
    ({ f with interpolator := .range oldWeight newWeight (blockSize : T) }, .change)

/-- The samples of a source, and what is selected for it. -/
structure Selected (T : Type) (blockSize : ℕ) where
  samples : CombineChannels.Samples blockSize T
  selection : Selection T

def renderFunction {blockSize : ℕ} :
    CombineChannels.InterpolationObject (RenderFunction T) (Selected T blockSize) T T :=
  { select := fun f source =>
      let (f, result) := f.store blockSize source.selection
      (f, source, result)
    transform := fun f x => x * f.weight
    interpolate := fun f x index => x * f.interpolator.call index }

/-- `Output::Process`, with the samples of the sources. -/
def processOutput {blockSize : ℕ} (out : Fin outputs.length)
    (sources : List (CombineChannels.Samples blockSize T × Source T outputs.length))
    (buffer : CombineChannels.Target blockSize T) :
    Option (CombineChannels.Target blockSize T) := do
  let selected ← sources.mapM fun (samples, source) =>
    (select out source.firstWeight source.secondWeight).map fun selection => { samples, selection }
  let (buffer, _) ← CombineChannels.interpolation renderFunction Selected.samples .new selected buffer
  return buffer

end VbapRenderer

end Ssr
