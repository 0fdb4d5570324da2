import Ssr.Apf.Interpolation
import Ssr.Renderer.Command

/-!
# The sources of a renderer in one block (`rendererbase.h`)

`RenderSource` is the base class of the sources of all renderers, with `n` samples in a block. `gains`
is what happens to `weighting_factor` in `Process`.
-/

set_option autoImplicit false

namespace Apf.BlockParameter

variable {T : Type}

/-- `operator*=`, which does not change the old value. -/
def mulAssign [Mul T] (p : BlockParameter T) (rhs : T) : BlockParameter T :=
  { p with current := p.current * rhs }

end Apf.BlockParameter

namespace Ssr

open Apf CombineChannels

variable {T : Type} {n : ℕ}

structure RenderSource (T : Type) (n : ℕ) where
  /-- the shared data -/
  data : SourceData T
  weightingFactor : BlockParameter T
  /-- from `begin()` to `end()` -/
  samples : Samples n T

namespace RenderSource

variable [Zero T] [Mul T]

/-- The weight of a source: none if it is muted or if the renderer does not process. -/
def gains (state : RenderState T) (masterVolumeCorrection : T) (data : SourceData T)
    (weightingFactor : BlockParameter T) : BlockParameter T :=
  if !state.processing || data.mute then weightingFactor.assign 0
  else
    ((weightingFactor.assign data.gain).mulAssign state.masterVolume).mulAssign masterVolumeCorrection

/-- `Process`, with the data and the samples of this block. -/
def process (state : RenderState T) (masterVolumeCorrection : T) (data : SourceData T)
    (samples : Samples n T) (source : RenderSource T n) : RenderSource T n :=
  { data, samples
    weightingFactor := gains state masterVolumeCorrection data source.weightingFactor }

end RenderSource

/-- What a renderer with `k` sources gets for a block. -/
structure Frame (T : Type) (k : ℕ) where
  state : RenderState T
  data : Fin k → SourceData T
  samples : Fin k → ℕ → T

/-- The weight of a source in a block. -/
def Frame.weightingFactor [Zero T] [Mul T] {k : ℕ} (f : Frame T k) (masterVolumeCorrection : T)
    (i : Fin k) : T :=
  (RenderSource.gains f.state masterVolumeCorrection (f.data i) (.new 0)).current

end Ssr
