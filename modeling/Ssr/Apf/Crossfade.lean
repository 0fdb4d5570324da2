import Ssr.Apf.ConvolverOutput

/-!
# Crossfades of convolved signals (`apf/misc.h`, `apf/combine_channels.h`)

A `SourceChannel` is the convolver output of a headphone renderer for one ear. The convolution is
an unknown function of the input spectra, the pointers to the filter partitions and the weight, so a
signal is the triple of these (`Convolved`). In each block `process` prepares the signal with the
old values and changes the filter, and `combine` says which signals go to the output directly, with
the fade-out and with the fade-in.
-/

set_option autoImplicit false

namespace Apf

/-- `BlockParameter`: a value and the one before the last assignment. -/
structure BlockParameter (T : Type) where
  current : T
  old : T
  deriving DecidableEq, Repr

namespace BlockParameter

variable {T : Type}

def new (value : T) : BlockParameter T := { current := value, old := value }

/-- `operator=` -/
def assign (p : BlockParameter T) (value : T) : BlockParameter T :=
  { current := value, old := p.current }

def changed [DecidableEq T] (p : BlockParameter T) : Bool := p.current ≠ p.old

/-- `both() == value` -/
def bothEq [DecidableEq T] (p : BlockParameter T) (value : T) : Bool :=
  p.current = value && p.old = value

end BlockParameter

inductive CombineChannelsResult
  | nothing
  | constant
  | change
  | fadeIn
  | fadeOut
  deriving DecidableEq, Repr

/-- What `convolve(weight)` returns. -/
structure Convolved (σ π α : Type) where
  input : σ
  filterPtrs : List π
  weight : α
  deriving DecidableEq, Repr

variable {σ π α : Type}

/-- Everything but the input, which is another one in each block. -/
def Convolved.settings (s : Convolved σ π α) : List π × α := (s.filterPtrs, s.weight)

/-- The copies that one item adds to the output and to the two buffers. -/
structure Combined (σ π α : Type) where
  out : Option (Convolved σ π α)
  fadeOut : Option (Convolved σ π α)
  fadeIn : Option (Convolved σ π α)
  deriving DecidableEq, Repr

namespace Combined

/-- The signal at the beginning of the block. -/
def old (r : Combined σ π α) : Option (Convolved σ π α) := r.out.or r.fadeOut

/-- The signal at the end of the block. -/
def new (r : Combined σ π α) : Option (Convolved σ π α) := r.out.or r.fadeIn

end Combined

structure SourceChannel (σ π α : Type) where
  output : Conv.Output π
  /-- from `begin()` to `end()` -/
  signal : Option (Convolved σ π α)
  crossfadeMode : CombineChannelsResult
  weight : α
  deriving DecidableEq, Repr

namespace SourceChannel

/-- The constructor; mode and weight are set before they are used. -/
def new [Zero α] (emptyPartition : π) (partitions : ℕ) : SourceChannel σ π α :=
  { output := .new emptyPartition partitions, signal := none, crossfadeMode := .nothing, weight := 0 }

def convolveAndMore (c : SourceChannel σ π α) (input : σ) (weight : α) : SourceChannel σ π α :=
  { c with signal := some ⟨input, c.output.filterPtrs, weight⟩ }

def update (c : SourceChannel σ π α) (input : σ) : SourceChannel σ π α :=
  c.convolveAndMore input c.weight

/-- The body of the loop over the channels in `_process`; `filter` is the new filter, if there is
one. -/
def process (c : SourceChannel σ π α) (input : σ) (crossfadeMode : CombineChannelsResult)
    (queuesEmpty : Bool) (filter : Option (List π)) (weight : BlockParameter α) :
    SourceChannel σ π α :=
  let c :=
    if crossfadeMode = .nothing ∨ crossfadeMode = .fadeIn then c
    else c.convolveAndMore input weight.old
  let c := if queuesEmpty then c else { c with output := c.output.rotateQueues }
  let c :=
    match filter with
    | none => c
    | some filter => { c with output := c.output.setFilter filter }
  { c with crossfadeMode, weight := weight.current }

/-- One item of `CombineChannelsCrossfadeCopy::process`. -/
def combine (c : SourceChannel σ π α) (input : σ) : SourceChannel σ π α × Combined σ π α :=
  match c.crossfadeMode with
  | .nothing => (c, { out := none, fadeOut := none, fadeIn := none })
  -- `case_one`
  | .constant => (c, { out := c.signal, fadeOut := none, fadeIn := none })
  -- `case_two`
  | selection =>
    let fadeOut := if selection ≠ .fadeIn then c.signal else none
    if selection ≠ .fadeOut then
      let c := c.update input
      (c, { out := none, fadeOut, fadeIn := c.signal })
    else (c, { out := none, fadeOut, fadeIn := none })

end SourceChannel

end Apf
