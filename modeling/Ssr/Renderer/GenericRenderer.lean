import Ssr.Apf.CombineChannels
import Ssr.Apf.Convolver
import Ssr.Renderer.RenderSource
import Mathlib.Logic.Function.Basic

/-!
# The generic renderer (`genericrenderer.h`)

A source has an impulse response for each of the `L` outputs, which does not change. All its channels
read the spectra of one convolver input.
-/

set_option autoImplicit false

namespace Ssr.Generic

open Apf Conv CombineChannels

variable {α : Type} {n k L : ℕ}

structure SourceChannel (α : Type) (n : ℕ) where
  /-- the filter of the `StaticOutput` -/
  convolver : List (FftNode α)
  /-- from `begin()` to `end()` -/
  samples : Samples n α

structure Source (α : Type) (n L : ℕ) where
  weightingFactor : BlockParameter α
  convolver : Conv.Input α
  sourcechannels : Fin L → SourceChannel α n

section
variable [Zero α] (fftw : Fftw α)

/-- The constructor, with the channels of the impulse response file, which have `size` samples. -/
def Source.new (blockSize size : ℕ) (slices : Fin L → List α) : Option (Source α n L) :=
  (Conv.Input.new blockSize (minPartitions blockSize size)).map fun convolver =>
    { weightingFactor := .new 0
      convolver
      sourcechannels := fun l =>
        { convolver := staticOutput fftw convolver (slices l), samples := fun _ => 0 } }

/-- `Process` -/
def Source.process [Mul α] [DecidableEq α] (masterVolumeCorrection : α) (f : Frame α k) (i : Fin k)
    (s : Source α n L) : Source α n L :=
  { s with
    weightingFactor := s.weightingFactor.assign (f.weightingFactor masterVolumeCorrection i)
    convolver := s.convolver.addBlock fftw (f.samples i) }

end

variable [Field α] [DecidableEq α] (fftw : Fftw α)

/-- `SourceChannel::convolve` -/
def SourceChannel.convolve (c : SourceChannel α n) (input : Conv.Input α) (weight : α) :
    SourceChannel α n :=
  { c with samples := fun j => Conv.convolve fftw input c.convolver weight j }

/-- `SourceChannel::update` -/
def SourceChannel.update (s : Source α n L) (c : SourceChannel α n) : SourceChannel α n :=
  c.convolve fftw s.convolver s.weightingFactor.current

/-- `RenderFunction::select` -/
def SourceChannel.select (s : Source α n L) (c : SourceChannel α n) :
    SourceChannel α n × CombineChannelsResult :=
  let factor := s.weightingFactor
  if factor.bothEq 0 then (c, .nothing)
  else if factor.old = 0 then (c, .fadeIn)
  else
    let c := c.convolve fftw s.convolver factor.old
    if factor.current = 0 then (c, .fadeOut)
    else if !factor.changed then (c, .constant)
    else (c, .change)

/-- `RenderFunction`, for the channels of all sources. -/
def renderFunction (sources : Fin k → Source α n L) :
    FunctionObject (Fin k → SourceChannel α n) (Fin k) :=
  { select := fun c i =>
      let (channel, mode) := (c i).select fftw (sources i)
      (Function.update c i channel, mode)
    update := fun c i => Function.update c i ((c i).update fftw (sources i)) }

/-- `Output::Process` -/
def processOutput (sources : Fin k → Source α n L) (fade : Fade n α)
    (c : Fin k → SourceChannel α n) (b : Buffers n α) : (Fin k → SourceChannel α n) × Buffers n α :=
  crossfadeCopy (renderFunction fftw sources) (fun c i => (c i).samples) fade (List.finRange k) c b

/-- The sources and the outputs. -/
structure Renderer (α : Type) (n k L : ℕ) where
  sources : Fin k → Source α n L
  outputs : Fin L → Buffers n α

/-- One block: first the sources, then the outputs. -/
def Renderer.process (masterVolumeCorrection : α) (fade : Fade n α) (r : Renderer α n k L)
    (f : Frame α k) : Renderer α n k L :=
  let sources := fun i => (r.sources i).process fftw masterVolumeCorrection f i
  let out := fun l =>
    processOutput fftw sources fade (fun i => (sources i).sourcechannels l) (r.outputs l)
  { sources := fun i => { sources i with sourcechannels := fun l => (out l).1 i }
    outputs := fun l => (out l).2 }

end Ssr.Generic
