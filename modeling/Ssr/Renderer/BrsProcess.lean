import Ssr.Apf.CMath
import Ssr.Apf.CombineChannels
import Ssr.Renderer.BrsRenderer
import Ssr.Renderer.RenderSource
import Mathlib.Algebra.Order.Floor.Defs
import Mathlib.Logic.Function.Basic

/-!
# Blocks of the BRS renderer (`brsrenderer.h`)

What the renderer does with a block of samples for each source: the inputs of the convolvers, the
sources with the BRTF index for the orientation of the listener (`Source.process`), and the two
outputs, which mix the channels of all sources.
-/

set_option autoImplicit false

namespace Ssr.Brs

open Apf Conv CombineChannels

variable {α : Type} {n k : ℕ}

/-! ## Filters -/

section
variable [Zero α] (fftw : Fftw α)

/-- The constructor of `Source` makes the BRTFs from the channels of its file, which have `size`
samples. It throws if their number is odd. -/
def Config.load (blockSize size : ℕ) (channels : List (List α)) : Option (Config α) :=
  if channels.length % 2 ≠ 0 then none
  else
    let partitions := minPartitions blockSize size
    some {
      brtfSet := fun index =>
        prepareFilter fftw blockSize (channels.getD index []) (List.replicate partitions .new)
      partitions }

/-- The node at an address. -/
def Config.node (cfg : Config α) : NodePtr → FftNode α
  | .empty => .new
  | .brtf index partition => (cfg.brtfSet index).getD partition .new

end

section
variable [Field α] (fftw : Fftw α)

/-- What `convolve` returns for a channel. -/
def Config.samples (cfg : Config α) (signal : Convolved (Conv.Input α) NodePtr α) : Samples n α :=
  fun i => convolve fftw signal.input (signal.filterPtrs.map cfg.node) signal.weight i

variable [LinearOrder α] [CMath α] [FloorSemiring α]

/-- The BRTF index for the orientation of the listener; source positions are not considered. 90
degrees are in the middle of the index 0. As with `hrtfIndex` of the binaural renderer, `float`
rounding can give `angles` itself. -/
def brtfIndex (angles : ℕ) (azimuth : α) : ℕ :=
  ⌊fwrap ((azimuth - (90 : ℕ)) * (angles : α) / (360 : ℕ) + 1 / (2 : ℕ)) (angles : α)⌋₊

end

/-! ## Blocks -/

/-- A renderer with `k` sources, each of which has a convolver and two channels. -/
structure Renderer (α : Type) (n k : ℕ) where
  inputs : Fin k → Conv.Input α
  sources : Fin k → Source (Conv.Input α) α
  left : Buffers n α
  right : Buffers n α

variable [Field α] [LinearOrder α] [CMath α] [FloorSemiring α] (fftw : Fftw α)
  (cfg : Fin k → Config α) (angles : Fin k → ℕ) (masterVolumeCorrection : α)

/-- `RenderFunction`, for the channels of all sources. -/
def renderFunction (inputs : Fin k → Conv.Input α) :
    FunctionObject (Fin k → Channel (Conv.Input α) α) (Fin k) :=
  { select := fun c i => (c, (c i).crossfadeMode)
    update := fun c i => Function.update c i ((c i).update (inputs i)) }

/-- `Output::Process` -/
def processOutput (inputs : Fin k → Conv.Input α) (fade : Fade n α)
    (c : Fin k → Channel (Conv.Input α) α) (b : Buffers n α) :
    (Fin k → Channel (Conv.Input α) α) × Buffers n α :=
  crossfadeCopy (renderFunction inputs)
    (fun c i => ((c i).signal.map ((cfg i).samples fftw)).getD fun _ => 0) fade (List.finRange k) c b

/-- What `Source::Process` computes before it goes on with the channels. -/
def blockOf (f : Frame α k) (inputs : Fin k → Conv.Input α) (i : Fin k) :
    Block (Conv.Input α) α :=
  { input := (inputs i).addBlock fftw (f.samples i)
    brtfIndex := brtfIndex (angles i) f.state.referenceOrientation.azimuth
    weightingFactor := f.weightingFactor masterVolumeCorrection i }

namespace Renderer

/-- The sources have been added, and no block has been processed. -/
def start (inputs : Fin k → Conv.Input α) (left right : Buffers n α) : Renderer α n k :=
  { inputs, sources := fun i => .new (cfg i), left, right }

/-- One block: first the sources, then the outputs. -/
def process (fade : Fade n α) (r : Renderer α n k) (f : Frame α k) : Renderer α n k :=
  let block := blockOf fftw angles masterVolumeCorrection f r.inputs
  let inputs := fun i => (block i).input
  let sources := fun i => (r.sources i).process (cfg i) (block i)
  let (left, leftBuffers) := processOutput fftw cfg inputs fade (fun i => (sources i).left) r.left
  let (right, rightBuffers) :=
    processOutput fftw cfg inputs fade (fun i => (sources i).right) r.right
  { inputs
    sources := fun i => { sources i with left := left i, right := right i }
    left := leftBuffers
    right := rightBuffers }

end Renderer

end Ssr.Brs
