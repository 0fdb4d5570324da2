import Ssr.Renderer.RendererBase
import Ssr.Lib.Run

/-!
# Two threads that add and remove sources (`rendererbase.h`)

`add_source` and `rem_source` hold `_lock` and are one step each. `rem_all_sources` takes the lock
only in the calls of `rem_source`; its other accesses are steps of their own. A step that ends in
undefined behaviour (a pointer that is no longer in the map, the first entry of an empty map) has no
successor.
-/

set_option autoImplicit false

namespace Ssr

variable {F : Type}

inductive Caller
  | gui
  | network
  deriving DecidableEq, Repr

/-- A point of `rem_all_sources()`. -/
inductive RemAll
  | idle
  /-- `_source_map.empty()` -/
  | test
  /-- `_source_map.begin()->second` -/
  | readFirst
  /-- `this->rem_source(source)` -/
  | remove (source : Ptr)
  /-- `_highest_id = 0` -/
  | reset
  deriving DecidableEq, Repr

structure TwoThreads (F : Type) where
  renderer : Renderer F
  pc : Caller → RemAll

namespace TwoThreads

variable (cfg : RendererConfig)

/-- A new renderer; both threads are outside of `rem_all_sources()`. -/
def init [FloatOps F] : TwoThreads F := { renderer := .new cfg, pc := fun _ => .idle }

def goto (s : TwoThreads F) (caller : Caller) (pc : RemAll) : TwoThreads F :=
  { s with pc := fun c => if c = caller then pc else s.pc c }

/-- `rem_source(source)`, after which the caller goes on at `pc`. -/
def remove (s : TwoThreads F) (caller : Caller) (source : Ptr) (pc : RemAll) :
    Option (TwoThreads F) :=
  ((s.renderer.remSource cfg (some source)).map fun renderer =>
    { s with renderer }.goto caller pc).toOption

/-- The next step of `rem_all_sources()`. -/
def next (s : TwoThreads F) (caller : Caller) : Option (TwoThreads F) :=
  match s.pc caller with
  | .idle => none
  | .test =>
    some (s.goto caller (if s.renderer.sourceMap.entries.isEmpty then .reset else .readFirst))
  | .readFirst =>
    s.renderer.sourceMap.entries.head?.map fun entry => s.goto caller (.remove entry.2)
  | .remove source => s.remove cfg caller source .test
  | .reset => some ({ s with renderer := { s.renderer with highestId := 0 } }.goto caller .idle)

inductive Action
  | addSource (caller : Caller) (p : SourceParams)
  | remSource (caller : Caller) (source : Ptr)
  | remAllSources (caller : Caller)
  | next (caller : Caller)
  /-- the realtime thread executes the oldest command -/
  | execute

def step [FloatOps F] (s : TwoThreads F) : Action → Option (TwoThreads F)
  | .addSource caller p =>
    if s.pc caller = .idle then some { s with renderer := (s.renderer.addSource cfg p).1 } else none
  | .remSource caller source =>
    if s.pc caller = .idle then s.remove cfg caller source .idle else none
  | .remAllSources caller => if s.pc caller = .idle then some (s.goto caller .test) else none
  | .next caller => s.next cfg caller
  | .execute => (s.renderer.step cfg .execute).map fun renderer => { s with renderer }

/-- The ids start again only when there are no sources, and no `connect()` throws. -/
def Careful (s : TwoThreads F) : Action → Prop
  | .next caller => s.pc caller = .reset → s.renderer.sourceMap.entries = []
  | .addSource _ p =>
    ¬ (cfg.sourceError p.propertiesFile = none ∧ cfg.kind = .nfcHoa ∧ 58 ≤ cfg.outputs)
  | _ => True

end TwoThreads

end Ssr
