import Ssr.Apf.CombineChannels
import Ssr.Lib.Ramp
import Ssr.Renderer.BinauralRenderer
import Ssr.Renderer.RenderSource
import Ssr.Scene.Geometry
import Mathlib.Algebra.Order.Floor.Defs

/-!
# Blocks of the binaural renderer (`binauralrenderer.h`)

What the renderer does with a block of samples for each source: HRTF index, interpolation factor and
weight come from the positions of the source and the listener (`blockOf`), and the two outputs mix
the channels of all sources. The samples of a channel are computed when the source convolves them,
because `temporary_hrtf` may change after that.
-/

set_option autoImplicit false

namespace Ssr.Binaural

open Apf Conv CombineChannels Lib

variable {α : Type} {n k : ℕ}

/-! ## The HRTFs -/

/-- The loop of `std::max_element`, from the element `next` on. -/
def maxElementLoop (less : α → α → Bool) (largest : ℕ) (value : α) (next : ℕ) : List α → ℕ
  | [] => largest
  | x :: xs =>
    if less value x then maxElementLoop less next x (next + 1) xs
    else maxElementLoop less largest value (next + 1) xs

/-- `std::max_element` -/
def maxElement (less : α → α → Bool) : List α → ℕ
  | [] => 0
  | x :: xs => maxElementLoop less 0 x 1 xs

/-- `_cmp_abs` -/
def cmpAbs [AddGroup α] [LinearOrder α] (left right : α) : Bool := |left| < |right|

/-- The time-domain coefficients of the neutral filter: an impulse where the first channel has its
absolute maximum. -/
def impulse [Scalar α] [LinearOrder α] (channels : List (List α)) : List α :=
  List.replicate (maxElement cmpAbs (channels.headD [])) 0 ++ [1]

/-- `_load_hrtfs`, with the channels of the HRIR file, of which `size` samples are used. It throws
if their number is odd. -/
def Config.load [Scalar α] [LinearOrder α] (fftw : Fftw α) (blockSize size : ℕ)
    (channels : List (List α)) : Option (Config α) :=
  if channels.length % 2 ≠ 0 then none
  else
    let partitions := minPartitions blockSize size
    some {
      hrtfs := fun index =>
        prepareFilter fftw blockSize (channels.getD index []) (List.replicate partitions .new)
      -- the number of partitions may be different
      neutralFilter := filter fftw blockSize (impulse channels) 0
      partitions }

/-- The node at an address. -/
def Config.node [Zero α] (cfg : Config α) (temporaryHrtf : List (FftNode α)) : NodePtr → FftNode α
  | .empty => .new
  | .hrtf index partition => (cfg.hrtfs index).getD partition .new
  | .temporary partition => temporaryHrtf.getD partition .new

/-! ## A source and the listener -/

section
variable [Scalar α] [LinearOrder α] [CMath α]

/-- Position and orientation of the listener. -/
def reference (state : RenderState α) : DirectionalPoint α :=
  DirectionalPoint.add ⟨state.referencePosition, state.referenceOrientation⟩
    ⟨state.referenceOffsetPosition, state.referenceOffsetOrientation⟩

/-- `interp_factor` and `weight` in `_process`, for a source with the given weighting factor. -/
def factors (state : RenderState α) (data : SourceData α) (weightingFactor : α) : α × α :=
  let half : α := 1 / (2 : ℕ)
  if weightingFactor ≠ 0 then
    if data.model = .plane then
      -- no distance attenuation for plane waves
      (0, half / state.amplitudeReferenceDistance * weightingFactor)
    else
      let sourceDistance := (data.position.sub (reference state).position).length
      let interpFactor := if sourceDistance < half then 1 - (2 : ℕ) * sourceDistance else 0
      -- no volume increase for sources closer than 0.5m
      (interpFactor, half / max sourceDistance half * weightingFactor)
  else (0, 0)

variable [FloorSemiring α]

/-- The HRTF index for the direction of the source, seen by the listener. In exact arithmetic it is
less than `angles`; with `float`, the sum in `fwrap` can be rounded up to `angles` itself. -/
def hrtfIndex (angles : ℕ) (state : RenderState α) (data : SourceData α) : ℕ :=
  let relOri := (data.position.sub (reference state).position).orientation.sub
    (reference state).orientation
  ⌊fwrap (relOri.azimuth * (angles : α) / (360 : ℕ) + 1 / (2 : ℕ)) (angles : α)⌋₊

end

/-! ## Channels -/

/-- A channel, and what is read from `begin()` to `end()`. -/
structure Sound (α : Type) (n : ℕ) where
  channel : Channel (Conv.Input α) α
  samples : Samples n α

section
variable [Scalar α] (fftw : Fftw α) (cfg : Config α)

/-- What `convolve` returns for a channel. -/
def Channel.convolve (c : Channel (Conv.Input α) α) (input : Conv.Input α) (weight : α) :
    Samples n α :=
  fun j => Conv.convolve fftw input (c.output.filterPtrs.map (cfg.node c.temporaryHrtf)) weight j

/-- `SourceChannel::update` -/
def Sound.update (input : Conv.Input α) (s : Sound α n) : Sound α n :=
  { channel := { s.channel with toSourceChannel := s.channel.update input }
    samples := s.channel.convolve fftw cfg input s.channel.weight }

end

/-- The left and the right channel. -/
def Source.channel {σ : Type} (s : Source σ α) (ear : Fin 2) : Channel σ α :=
  if ear.val = 0 then s.left else s.right

/-! ## Blocks -/

/-- A renderer with `k` sources, each of which is an input of the convolution. -/
structure Renderer (α : Type) (n k : ℕ) where
  inputs : Fin k → Conv.Input α
  sources : Fin k → Source (Conv.Input α) α
  /-- of the channels of the sources -/
  samples : Fin k → Fin 2 → Samples n α
  outputs : Fin 2 → Buffers n α

variable [Scalar α] [LinearOrder α] (fftw : Fftw α) (cfg : Config α)

/-- `RenderFunction`, for the channels of all sources. -/
def renderFunction (inputs : Fin k → Conv.Input α) :
    FunctionObject (Fin k → Sound α n) (Fin k) :=
  { select := fun s i => (s, (s i).channel.crossfadeMode)
    update := fun s i => fun j => if j = i then (s i).update fftw cfg (inputs i) else s j }

/-- `Output::Process` -/
def processOutput (inputs : Fin k → Conv.Input α) (fade : Fade n α) (s : Fin k → Sound α n)
    (b : Buffers n α) : (Fin k → Sound α n) × Buffers n α :=
  crossfadeCopy (renderFunction fftw cfg inputs) (fun s i => (s i).samples) fade (List.finRange k)
    s b

/-- A channel of a source that was `source` before the block `b`; `samples` are from an earlier
block. -/
def Source.sound (source : Source (Conv.Input α) α) (b : Block (Conv.Input α) α) (ear : Fin 2)
    (samples : Samples n α) : Sound α n :=
  let channel := (source.process cfg b).channel ear
  { channel
    samples :=
      if channel.crossfadeMode = .nothing ∨ channel.crossfadeMode = .fadeIn then samples
      else (source.channel ear).convolve fftw cfg b.input source.weight.current }

variable [CMath α] [FloorSemiring α] (angles : ℕ) (masterVolumeCorrection : α)

/-- What `_process` computes before it goes on with the channels. -/
def blockOf (f : Frame α k) (inputs : Fin k → Conv.Input α) (i : Fin k) :
    Block (Conv.Input α) α :=
  let (interpFactor, weight) :=
    factors f.state (f.data i) (f.weightingFactor masterVolumeCorrection i)
  { input := (inputs i).addBlock fftw (f.samples i)
    hrtfIndex := hrtfIndex angles f.state (f.data i)
    interpFactor
    weight }

namespace Renderer

/-- The sources have been added, and no block has been processed. -/
def start (inputs : Fin k → Conv.Input α) (outputs : Fin 2 → Buffers n α) : Renderer α n k :=
  { inputs, sources := fun _ => .new cfg, samples := fun _ _ _ => 0, outputs }

/-- One block: first the sources, then the outputs. -/
def process (fade : Fade n α) (r : Renderer α n k) (f : Frame α k) : Renderer α n k :=
  let block := blockOf fftw angles masterVolumeCorrection f r.inputs
  let out := fun ear => processOutput fftw cfg (fun i => (block i).input) fade
    (fun i => (r.sources i).sound fftw cfg (block i) ear (r.samples i ear)) (r.outputs ear)
  { inputs := fun i => (block i).input
    sources := fun i => { (r.sources i).process cfg (block i) with
      left := ((out ⟨0, Nat.zero_lt_two⟩).1 i).channel
      right := ((out ⟨1, Nat.one_lt_two⟩).1 i).channel }
    samples := fun i ear => ((out ear).1 i).samples
    outputs := fun ear => (out ear).2 }

end Renderer

end Ssr.Binaural
