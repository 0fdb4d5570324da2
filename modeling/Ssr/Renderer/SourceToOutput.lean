import Ssr.Apf.Container
import Ssr.Renderer.Command
import Ssr.Lib.Run

/-!
# Connecting sources to the outputs (`SourceToOutput` in `rendererbase.h`)

Every output has a list of source channels. `connect` and `disconnect` of a source push a command
with pointers to its channels, one for each output; the realtime thread executes the commands in
this order. The commands that have been executed are kept here with what is then in their lists.
-/

set_option autoImplicit false

namespace Ssr

variable {α : Type}

inductive SublistCommand (α : Type)
  /-- `AddToSublistCommand` -/
  | add (input : List α)
  /-- `RemFromSublistCommand` -/
  | rem (input garbage : List α)
  deriving DecidableEq, Repr

structure SourceToOutput (α : Type) where
  /-- the `sourcechannels` of the outputs -/
  sublists : List (List α)
  pending : List (SublistCommand α)
  executed : List (SublistCommand α)
  /-- the channels of the connected sources, in the order of their connection -/
  connected : List (List α)
  /-- what an `execute()` has thrown -/
  threw : Option String
  deriving DecidableEq, Repr

namespace SourceToOutput

/-- `n` outputs, nothing is connected. -/
def start (n : ℕ) : SourceToOutput α :=
  { sublists := List.replicate n [], pending := [], executed := [], connected := [], threw := none }

inductive Op (α : Type)
  /-- `connect()` of a source with pointers to these channels -/
  | connect (sourcechannels : List α)
  | disconnect (sourcechannels : List α)
  /-- `execute()` of the oldest command -/
  | execute
  deriving DecidableEq, Repr

variable [DecidableEq α]

def execute (s : SourceToOutput α) : SublistCommand α → SourceToOutput α
  | .add input =>
    let r := Apf.Container.distributeList input s.sublists
    { s with
      sublists := r.target
      executed := s.executed ++ [.add r.source]
      threw := s.threw.or r.error }
  | .rem input garbage =>
    let r := Apf.Container.undistributeList input s.sublists garbage
    { s with
      sublists := r.target
      executed := s.executed ++ [.rem input r.garbage]
      threw := s.threw.or r.error }

def step (s : SourceToOutput α) : Op α → Option (SourceToOutput α)
  | .connect sourcechannels =>
    some { s with
      pending := s.pending ++ [.add sourcechannels]
      connected := s.connected ++ [sourcechannels] }
  | .disconnect sourcechannels =>
    some { s with
      pending := s.pending ++ [.rem sourcechannels []]
      connected := s.connected.erase sourcechannels }
  | .execute =>
    match s.pending with
    | [] => none
    | c :: pending => some ({ s with pending }.execute c)

/-- A source has one channel for each output, and no channel belongs to two sources; only connected
sources are disconnected. -/
def Allowed (s : SourceToOutput α) : Op α → Prop
  | .connect sourcechannels =>
    sourcechannels.length = s.sublists.length ∧
      ∀ d ∈ s.connected, ∀ x ∈ sourcechannels, x ∉ d
  | .disconnect sourcechannels => sourcechannels ∈ s.connected
  | .execute => True

end SourceToOutput

end Ssr
