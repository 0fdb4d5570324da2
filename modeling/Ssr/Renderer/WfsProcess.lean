import Ssr.Apf.Convolver
import Ssr.Lib.Ramp
import Ssr.Renderer.RenderSource
import Ssr.Renderer.WfsRenderer

/-!
# Blocks of wave field synthesis (`wfsrenderer.h`)

What the renderer does with a block of samples for each source: the inputs convolve it with the
prefilter and write it into their delay lines, then come the sources and the outputs.
-/

set_option autoImplicit false

namespace Ssr.WfsRenderer

open Apf Conv CombineChannels Lib

variable {T : Type} {n k L : ℕ}

structure Input (T : Type) where
  convolver : Conv.Input T
  /-- the filter of the `StaticConvolver` -/
  preFilter : List (FftNode T)
  delayline : NonCausalBlockDelayLine T

/-- The constructor, with the samples of the prefilter file. -/
def Input.new [Zero T] [Inhabited T] (fftw : Fftw T) (maxSize blockSize maxDelay initialDelay : ℕ)
    (ir : List T) : Option (Input T) :=
  let preFilter := filter fftw blockSize ir 0
  (Conv.Input.new blockSize preFilter.length).bind fun convolver =>
    (NonCausalBlockDelayLine.new maxSize blockSize maxDelay initialDelay).map fun delayline =>
      { convolver, preFilter := setFilter convolver preFilter, delayline }

/-- `Process` -/
def Input.process [Scalar T] [DecidableEq T] (fftw : Fftw T) (buffer : ℕ → T) (input : Input T) :
    Input T :=
  let convolver := input.convolver.addBlock fftw buffer
  { input with
    convolver
    delayline := input.delayline.writeBlock (convolve fftw convolver input.preFilter 1) }

/-- The inputs, the sources and the outputs; each source has an input. -/
structure Renderer (T : Type) (n k L : ℕ) where
  inputs : Fin k → Input T
  /-- the weights of the sources -/
  weightingFactors : Fin k → BlockParameter T
  /-- the channels of each output -/
  sourcechannels : Fin L → Fin k → SourceChannel T
  outputs : Fin L → Buffers n T

namespace Renderer

/-- The sources have been added, and no block has been processed. -/
def start [Zero T] (input : Input T) (outputs : Fin L → Buffers n T) : Renderer T n k L :=
  { inputs := fun _ => input
    weightingFactors := fun _ => .new 0
    sourcechannels := fun _ _ => .new
    outputs }

variable [Scalar T] [LinearOrder T] [CMath T] (fftw : Fftw T) (r : WfsRenderer T)
  (loudspeakers : Fin L → LoudspeakerOutput T) (masterVolumeCorrection : T)

/-- A source after its `Process`. -/
def source (s : Renderer T n k L) (f : Frame T k) (i : Fin k) : Source T :=
  { data := f.data i
    weightingFactor :=
      RenderSource.gains f.state masterVolumeCorrection (f.data i) (s.weightingFactors i)
    focused := focused f.state (List.ofFn loudspeakers) (f.data i)
    delayline := ((s.inputs i).process fftw (f.samples i)).delayline }

/-- One block, if no assertion fails. -/
def process (fade : Fade n T) (s : Renderer T n k L) (f : Frame T k) : Option (Renderer T n k L) :=
  let sources := s.source fftw loudspeakers masterVolumeCorrection f
  let processed := fun l => r.processOutput f.state (loudspeakers l) sources fade (List.finRange k)
    (s.sourcechannels l) (s.outputs l)
  if h : ∀ l, (processed l).isSome then
    some {
      inputs := fun i => (s.inputs i).process fftw (f.samples i)
      weightingFactors := fun i => (sources i).weightingFactor
      sourcechannels := fun l => ((processed l).get (h l)).2
      outputs := fun l => ((processed l).get (h l)).1 }
  else none

/-- The state after `t` blocks. -/
def after (fade : Fade n T) (s : Renderer T n k L) (frames : ℕ → Frame T k) :
    ℕ → Option (Renderer T n k L)
  | 0 => some s
  | t + 1 => (after fade s frames t).bind fun s =>
      s.process fftw r loudspeakers masterVolumeCorrection fade (frames t)

end Renderer

end Ssr.WfsRenderer
