import Ssr.Renderer.RendererBase

/-!
# Modes and channels of NFC-HOA (`nfchoarenderer.h`)

A source has a list of pointers to its modes, one for each mode accumulator. A mode accumulator adds
up its modes and writes one or two channels of the mode matrix, whose channels are the half-complex
coefficients of the Fourier transform around the array.
-/

set_option autoImplicit false

namespace Ssr

/-! ## Modes -/

/-- The loop of `Source::connect()` that fills `_modes`, over `_mode_pairs` in reverse order. -/
def sourceModes (source : Ptr) (pairs : List ModePair) : List Element :=
  pairs.zipIdx.reverse.foldl
    (fun modes pair =>
      -- `push_front` of the first mode, `push_back` of the second one
      (if pair.1.first.isSome then .mode source pair.2 false :: modes else modes) ++
        [.mode source pair.2 true])
    []

/-- The numbers of the modes of a pair. -/
def ModePair.numbers (pair : ModePair) : List ℕ :=
  (pair.first.toList.map Mode.number) ++ [pair.second.number]

/-- The number of the mode that a pointer points to. -/
def modeNumber (pairs : List ModePair) : Element → Option ℕ
  | .mode _ pair second => pairs[pair]?.bind fun p =>
    if second then some p.second.number else p.first.map Mode.number
  | .channel _ _ => none

/-! ## Mode accumulators -/

/-- `ModeAccumulator`: the numbers of the channels of the mode matrix that it writes; the second one
is `none` for a `discard_iterator`. -/
structure ModeAccumulator where
  first : ℕ
  second : Option ℕ
  deriving DecidableEq, Repr

/-- The channels that are written when the accumulator is processed. -/
def ModeAccumulator.channels (accumulator : ModeAccumulator) : List ℕ :=
  accumulator.first :: accumulator.second.toList

/-- `_mode_accumulator_list` after `load_reproduction_setup`. -/
def modeAccumulators (normalLoudspeakers : ℕ) : List ModeAccumulator :=
  let order := normalLoudspeakers / 2
  (List.range (order + 1)).map fun i =>
    if i = 0 ∨ (i = order ∧ normalLoudspeakers % 2 = 0) then ⟨i, none⟩
    else ⟨i, some (normalLoudspeakers - i)⟩

end Ssr
