import Ssr.Renderer.RendererBase
import Ssr.Lib.Run

/-!
# Published levels (`controller.h`, class `query_state`)

`query` runs in the realtime thread and reads the levels of the sources in the realtime list,
`update` publishes them for the ids in the source map, which may have changed in between. `Querying`
is the renderer together with one query that goes back and forth. `readings` records what the latest
`query` has read from each source.

`rem_all_sources` is a sequence of `rem_source` and, when the map is empty, `resetIds`: no source is
added in between, but anything else may happen there.
-/

set_option autoImplicit false

namespace Ssr

variable {F V : Type}

/-- What `get_level()` and `get_output_levels()` of a source return; the latter may have nothing. -/
structure Reading (V : Type) where
  level : V
  outputs : Option (List V)

structure SourceLevel (V : Type) where
  source : V
  outputsAvailable : Bool
  outputs : List V

namespace SourceLevel

def new [Zero V] (n : ℕ) : SourceLevel V :=
  { source := 0, outputsAvailable := false, outputs := List.replicate n 0 }

/-- The levels of one source are read. -/
def read (l : SourceLevel V) (r : Reading V) : SourceLevel V :=
  { source := r.level, outputsAvailable := r.outputs.isSome, outputs := r.outputs.getD l.outputs }

end SourceLevel

structure QueryState (V : Type) where
  sourceLevels : List (SourceLevel V)
  discardSourceLevels : Bool
  lastSource : Option Ptr

/-- A call of `set_source_signal_level` or `set_source_output_levels`. -/
inductive Published (V : Type)
  | signalLevel (id : ℕ) (level : V)
  | outputLevels (id : ℕ) (levels : List V)

namespace QueryState

def new : QueryState V := { sourceLevels := [], discardSourceLevels := true, lastSource := none }

/-- `query()`, as far as the levels of the sources go. -/
def query (q : QueryState V) (sourceList : List Ptr) (reading : Ptr → Reading V) : QueryState V :=
  if q.sourceLevels.length = sourceList.length then
    { sourceLevels := q.sourceLevels.zipWith (fun l source => l.read (reading source)) sourceList
      discardSourceLevels := false
      lastSource := sourceList.getLast? }
  else { q with discardSourceLevels := true, lastSource := none }

/-- The condition for `_set_source_signal_levels`. -/
def upToDate (q : QueryState V) (sourceMap : Lib.OrdMap ℕ Ptr) : Bool :=
  !q.discardSourceLevels && q.sourceLevels.length == sourceMap.entries.length &&
    (sourceMap.entries.isEmpty || q.lastSource == sourceMap.entries.getLast?.map Prod.snd)

/-- `_set_source_signal_levels` -/
def setSourceSignalLevels : List (ℕ × Ptr) → List (SourceLevel V) → List (Published V)
  | (id, _) :: entries, l :: levels =>
    .signalLevel id l.source ::
      ((if l.outputsAvailable then [.outputLevels id l.outputs] else []) ++
        setSourceSignalLevels entries levels)
  | _, _ => []

/-- What `update()` publishes for sources. -/
def published (q : QueryState V) (sourceMap : Lib.OrdMap ℕ Ptr) : List (Published V) :=
  if q.upToDate sourceMap then setSourceSignalLevels sourceMap.entries q.sourceLevels else []

/-- `_source_levels.resize(size, SourceLevel(outputs))` at the end of `update()`. -/
def resize [Zero V] (q : QueryState V) (size outputs : ℕ) : QueryState V :=
  { q with sourceLevels := q.sourceLevels.take size ++
      List.replicate (size - q.sourceLevels.length) (.new outputs) }

end QueryState

structure Querying (F V : Type) where
  renderer : Renderer F
  query : QueryState V
  /-- the query has been executed and waits for its cleanup -/
  executed : Bool
  readings : Ptr → Option (Reading V)

namespace Querying

variable (cfg : RendererConfig)

def init [FloatOps F] : Querying F V :=
  { renderer := .new cfg, query := .new, executed := false, readings := fun _ => none }

inductive Action (V : Type)
  | addSource (p : SourceParams)
  | remSource (source : Ptr)
  /-- the end of `rem_all_sources` -/
  | resetIds
  /-- the realtime thread executes the oldest command -/
  | execute
  /-- `query()`; `reading` gives the levels of all sources at this moment -/
  | query (reading : Ptr → Reading V)
  /-- `update()`, which calls `new_query` again -/
  | update

def step [FloatOps F] [Zero V] (s : Querying F V) : Action V → Option (Querying F V)
  | .addSource p => some { s with renderer := (s.renderer.addSource cfg p).1 }
  | .remSource source =>
    ((s.renderer.remSource cfg (some source)).map fun renderer => { s with renderer }).toOption
  | .resetIds =>
    if s.renderer.sourceMap.entries = [] then
      some { s with renderer := { s.renderer with highestId := 0 } }
    else none
  | .execute => (s.renderer.step cfg .execute).map fun renderer => { s with renderer }
  | .query reading =>
    if s.executed then none
    else
      let list := s.renderer.rt.sourceList
      let query := s.query.query list reading
      some { s with
        query
        executed := true
        readings := fun p =>
          if query.discardSourceLevels then none
          else if p ∈ list then some (reading p) else none }
  | .update =>
    if s.executed then
      some { s with
        query := s.query.resize s.renderer.sourceMap.entries.length cfg.outputs
        executed := false }
    else none

/-- What is published for an id has been read, in the latest query, from the source that has this
id. -/
def Right (s : Querying F V) : Published V → Prop
  | .signalLevel id level => ∃ source r, s.renderer.sourceMap.find id = some source ∧
      s.readings source = some r ∧ level = r.level
  | .outputLevels id levels => ∃ source r, s.renderer.sourceMap.find id = some source ∧
      s.readings source = some r ∧ r.outputs = some levels

end Querying

end Ssr
