import Ssr.Lib.Run
import Ssr.Control.Controller

/-!
# A call of new_source and the audio blocks that run meanwhile

The realtime thread can run a block between any two commands that `new_source` pushes. A block
executes all commands that have been pushed and then processes the sources of the source list, each
with its weighting factor.
-/

set_option autoImplicit false

namespace Ssr

open Lib

variable {F : Type} [FloatOps F]

/-- `weighting_factor` after `Source::Process`; `correction` is `master_volume_correction`. -/
def weightingFactor (correction : F) (rt : RtState F) (source : Ptr) : F :=
  if !rt.state.processing || (rt.data source).mute then FloatOps.ofInt 0
  else FloatOps.mul (FloatOps.mul (rt.data source).gain rt.state.masterVolume) correction

/-- The commands that a call of `new_source` pushes, in order. -/
def newSourceCommands (cfg : Config F) (env : Environment F) (c : Controller F) (a : SourceArgs F) :
    List (Command F) :=
  match c.newSource cfg env a with
  | .ok c' => c'.renderer.pending.drop c.renderer.pending.length
  | .error _ => []

/-- A call that has not pushed the commands `rest` yet. -/
structure Call (F : Type) where
  rest : List (Command F)
  renderer : Renderer F

namespace Call

inductive Action
  /-- the call pushes its next command -/
  | push
  /-- the realtime thread runs a block -/
  | block
  deriving DecidableEq, Repr

def start (cfg : Config F) (env : Environment F) (c : Controller F) (a : SourceArgs F) : Call F :=
  { rest := newSourceCommands cfg env c a, renderer := c.renderer }

omit [FloatOps F]

def step (t : Call F) : Action → Option (Call F)
  | .push =>
    match t.rest with
    | [] => none
    | cmd :: rest => some { rest, renderer := t.renderer.push [cmd] }
  | .block =>
    (t.renderer.flushed.map fun rt =>
      { t with renderer := { t.renderer with pending := [], rt } }).toOption

end Call

/-- A `set_source_mute` of the source. -/
def Command.isMute (source : Ptr) : Command F → Bool
  | .setSource p (.mute _) => p = source
  | _ => false

/-- The addition of the source to the source list. -/
def Command.isAddSource (source : Ptr) : Command F → Bool
  | .addSource p _ => p = source
  | _ => false

end Ssr
