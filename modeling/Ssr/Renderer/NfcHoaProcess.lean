import Ssr.Renderer.NfcHoaMode
import Mathlib.Logic.Function.Basic

/-!
# From the modes to the loudspeakers (`nfchoarenderer.h`)

Each mode accumulator writes its channels of the mode matrix. The matrix is transposed, so that the
channels of one sample are adjacent, and each of these rows is transformed in place; then a loudspeaker
takes its place of all rows.
-/

set_option autoImplicit false

namespace Ssr

open Apf CombineChannels

variable {T : Type} {n : ℕ}

/-- The output channels of an accumulator: the samples that it would add to. -/
def ModeAccumulator.outputChannels [Zero T] (accumulator : ModeAccumulator)
    (modeMatrix : ℕ → Samples n T) : Target n (T × T) :=
  { buffer := fun i =>
      (modeMatrix accumulator.first i, accumulator.second.elim 0 fun second => modeMatrix second i)
    accumulate := false }

/-- What the output channels are written to; a `discard_iterator` drops its samples. -/
def ModeAccumulator.write (accumulator : ModeAccumulator) (samples : Samples n (T × T))
    (modeMatrix : ℕ → Samples n T) : ℕ → Samples n T :=
  let modeMatrix := Function.update modeMatrix accumulator.first fun i => (samples i).1
  accumulator.second.elim modeMatrix fun second =>
    Function.update modeMatrix second fun i => (samples i).2

namespace NfcHoaRenderer

variable [DivisionRing T]

/-- The mode accumulators, each with the modes that its pointers point to. -/
def processAccumulators (accumulators : List (ModeAccumulator × List (Item T n)))
    (modeMatrix : ℕ → Samples n T) : Option (ℕ → Samples n T) :=
  accumulators.foldlM
    (fun modeMatrix accumulator => do
      let (outputChannels, _) ←
        processAccumulator accumulator.2 (accumulator.1.outputChannels modeMatrix)
      return accumulator.1.write outputChannels.buffer modeMatrix)
    modeMatrix

omit [DivisionRing T] in
/-- The transposed matrix after the `FftProcessor`s, and the buffers of the outputs. `fft` is the plan
for rows of `L` numbers. -/
def processFft {L : ℕ} (fft : (Fin L → T) → Fin L → T) (modeMatrix : ℕ → Samples n T) (out : Fin L) :
    Samples n T :=
  let fftMatrix := fun i (channel : Fin L) => modeMatrix channel i
  fun i => fft (fftMatrix i) out

end NfcHoaRenderer

end Ssr
