import Ssr.Apf.Crossfade
import Ssr.Lib.Run
import Mathlib.Algebra.Group.Basic
import Mathlib.Algebra.Group.Nat.Defs

/-!
# Sources of the BRS renderer (`brsrenderer.h`)

`Source.process` is the process function of `BrsRenderer::Source`. The BRTF index comes from the
orientation of the listener and the weight from the source; here they are any values (`Block`).
-/

set_option autoImplicit false

namespace Ssr.Brs

open Apf Conv

variable {σ α : Type}

/-- The address of a filter partition. -/
inductive NodePtr
  /-- `_empty_partition` of the channel -/
  | empty
  | brtf (index partition : ℕ)
  deriving DecidableEq, Repr

/-- What the constructor of a source reads from its properties file. -/
structure Config (α : Type) where
  /-- left and right channels are interleaved -/
  brtfSet : ℕ → List (FftNode α)
  partitions : ℕ

abbrev Channel (σ α : Type) := SourceChannel σ NodePtr α

structure Source (σ α : Type) where
  left : Channel σ α
  right : Channel σ α
  weightingFactor : BlockParameter α
  brtfIndex : BlockParameter ℕ
  deriving DecidableEq, Repr

/-- The input spectra of a block and what is computed for it. -/
structure Block (σ α : Type) where
  input : σ
  brtfIndex : ℕ
  weightingFactor : α
  deriving DecidableEq, Repr

/-- The old weight is compared first, unlike in the binaural renderer. -/
def crossfadeMode [Zero α] [DecidableEq α] (queuesEmpty brtfChanged : Bool)
    (weightingFactor : BlockParameter α) : CombineChannelsResult :=
  if weightingFactor.bothEq 0 then .nothing
  else if queuesEmpty && !weightingFactor.changed && !brtfChanged then .constant
  else if weightingFactor.old = 0 then .fadeIn
  else if weightingFactor.current = 0 then .fadeOut
  else .change

variable (cfg : Config α)

/-- Pointers to the partitions of a BRTF. -/
def brtfPtrs (index : ℕ) : List NodePtr :=
  (List.range (cfg.brtfSet index).length).map (.brtf index)

namespace Source

variable [Ring α]

/-- The constructor. -/
def new : Source σ α :=
  { left := .new .empty cfg.partitions
    right := .new .empty cfg.partitions
    weightingFactor := .new (-1)
    brtfIndex := .new (2 ^ 64 - 1) }

variable [DecidableEq α]

def process (s : Source σ α) (b : Block σ α) : Source σ α :=
  let weightingFactor := s.weightingFactor.assign b.weightingFactor
  let brtfIndex := s.brtfIndex.assign b.brtfIndex
  -- the filters of both channels are always changed in parallel
  let queuesEmpty := s.left.output.queuesEmpty
  let mode := crossfadeMode queuesEmpty brtfIndex.changed weightingFactor
  let filter := fun i =>
    if brtfIndex.changed then some (brtfPtrs cfg (2 * b.brtfIndex + i)) else none
  { left := s.left.process b.input mode queuesEmpty (filter 0) weightingFactor
    right := s.right.process b.input mode queuesEmpty (filter 1) weightingFactor
    weightingFactor, brtfIndex }

end Source

/-- A source and what its channels have added to the outputs in the last block. -/
structure Run (σ α : Type) where
  source : Source σ α
  left : Option (Combined σ NodePtr α)
  right : Option (Combined σ NodePtr α)
  deriving DecidableEq, Repr

namespace Run

variable [Ring α]

def start : Run σ α := { source := .new cfg, left := none, right := none }

variable [DecidableEq α]

/-- One block: first the sources, then the outputs. -/
def step (r : Run σ α) (b : Block σ α) : Option (Run σ α) :=
  let s := r.source.process cfg b
  let (left, outLeft) := s.left.combine b.input
  let (right, outRight) := s.right.combine b.input
  some {
    source := { s with left, right }
    left := some outLeft
    right := some outRight }

end Run

end Ssr.Brs
