import Ssr.Apf.Crossfade
import Ssr.Lib.Run
import Mathlib.Algebra.Group.Basic
import Mathlib.Algebra.Group.Nat.Defs

/-!
# Sources of the binaural renderer (`binauralrenderer.h`)

`Source.process` is `BinauralRenderer::Source::_process` from the assignments to the block
parameters on. Before that the HRTF index, the interpolation factor and the weight are computed from
positions, source model and gain; here they are any values (`Block`). After the sources, the two
outputs combine the channels.
-/

set_option autoImplicit false

namespace Ssr.Binaural

open Apf Conv

variable {σ α : Type}

/-- The address of a filter partition. -/
inductive NodePtr
  /-- `_empty_partition` of the channel -/
  | empty
  | hrtf (index partition : ℕ)
  /-- a partition of `temporary_hrtf` of the channel -/
  | temporary (partition : ℕ)
  deriving DecidableEq, Repr

structure Config (α : Type) where
  /-- left and right channels are interleaved -/
  hrtfs : ℕ → List (FftNode α)
  neutralFilter : List (FftNode α)
  partitions : ℕ

structure Channel (σ α : Type) extends SourceChannel σ NodePtr α where
  temporaryHrtf : List (FftNode α)

structure Source (σ α : Type) where
  left : Channel σ α
  right : Channel σ α
  hrtfIndex : BlockParameter ℕ
  interpFactor : BlockParameter α
  weight : BlockParameter α

/-- The input spectra of a block and what is computed for it. -/
structure Block (σ α : Type) where
  input : σ
  hrtfIndex : ℕ
  interpFactor : α
  weight : α
  deriving DecidableEq, Repr

section
variable [DecidableEq α] [Zero α]

def crossfadeMode (queuesEmpty hrtfChanged : Bool) (weight : BlockParameter α) :
    CombineChannelsResult :=
  if weight.bothEq 0 then .nothing
  else if queuesEmpty && !weight.changed && !hrtfChanged then .constant
  else if weight.current = 0 then .fadeOut
  else if weight.old = 0 then .fadeIn
  else .change

end

variable [Field α] [DecidableEq α] (cfg : Config α)

/-- The constructor of `SourceChannel`. -/
def Channel.new : Channel σ α :=
  { SourceChannel.new .empty cfg.partitions with
    temporaryHrtf := List.replicate cfg.partitions .new }

/-- Pointers to the partitions of an HRTF. -/
def hrtfPtrs (index : ℕ) : List NodePtr := (List.range (cfg.hrtfs index).length).map (.hrtf index)

/-- Channel `i` in the loop of `_process`. -/
def Channel.process (c : Channel σ α) (i : ℕ) (b : Block σ α) (mode : CombineChannelsResult)
    (queuesEmpty hrtfChanged : Bool) (weight : BlockParameter α) : Channel σ α :=
  let index := 2 * b.hrtfIndex + i
  if !hrtfChanged then
    { c.toSourceChannel.process b.input mode queuesEmpty none weight with
      temporaryHrtf := c.temporaryHrtf }
  else if b.interpFactor = 0 then
    { c.toSourceChannel.process b.input mode queuesEmpty (some (hrtfPtrs cfg index)) weight with
      temporaryHrtf := c.temporaryHrtf }
  else
    -- interpolate between selected HRTF and neutral filter
    let f := fun one two => (1 - b.interpFactor) * one + b.interpFactor * two
    let temporaryHrtf := transformNested f (cfg.hrtfs index) cfg.neutralFilter c.temporaryHrtf
    let filter := (List.range temporaryHrtf.length).map .temporary
    { c.toSourceChannel.process b.input mode queuesEmpty (some filter) weight with temporaryHrtf }

namespace Source

/-- The constructor. -/
def new : Source σ α :=
  { left := .new cfg
    right := .new cfg
    hrtfIndex := .new (2 ^ 64 - 1)
    interpFactor := .new (-1)
    weight := .new 0 }

def process (s : Source σ α) (b : Block σ α) : Source σ α :=
  let interpFactor := s.interpFactor.assign b.interpFactor
  let weight := s.weight.assign b.weight
  let hrtfIndex := s.hrtfIndex.assign b.hrtfIndex
  -- the filters of both channels are always changed in parallel
  let queuesEmpty := s.left.output.queuesEmpty
  let hrtfChanged := hrtfIndex.changed || interpFactor.changed
  let mode := crossfadeMode queuesEmpty hrtfChanged weight
  { left := s.left.process cfg 0 b mode queuesEmpty hrtfChanged weight
    right := s.right.process cfg 1 b mode queuesEmpty hrtfChanged weight
    hrtfIndex, interpFactor, weight }

end Source

/-- A source and what its channels have added to the outputs in the last block. -/
structure Run (σ α : Type) where
  source : Source σ α
  left : Option (Combined σ NodePtr α)
  right : Option (Combined σ NodePtr α)

namespace Run

def start : Run σ α := { source := .new cfg, left := none, right := none }

/-- One block: first the sources, then the outputs. -/
def step (r : Run σ α) (b : Block σ α) : Option (Run σ α) :=
  let s := r.source.process cfg b
  let (left, outLeft) := s.left.combine b.input
  let (right, outRight) := s.right.combine b.input
  some {
    source := { s with left := { s.left with toSourceChannel := left }
                       right := { s.right with toSourceChannel := right } }
    left := some outLeft
    right := some outRight }

end Run

end Ssr.Binaural
