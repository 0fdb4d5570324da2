import Ssr.Control.QueryState
import Ssr.Control.Subscribers
import Mathlib.Logic.Function.Basic

/-!
# Level messages (`boostnetwork/networksubscriber.cpp`)

A `NetworkSubscriber` keeps the level of each source until the next `send_levels`. Levels come from
`query_state::update`, which holds the lock of the renderer while it publishes them; sources are
deleted by other threads, which publish the deletion to the Scene, the renderer and all other
subscribers, in this order. `LevelThreads` is the Controller with all threads that take part: a call
of a subscriber is one step, and so is what the renderer does under its lock.

The Scene is called before everything else and keeps no levels. `given` records the ids that new
sources have got.
-/

set_option autoImplicit false

namespace Net

open Lib Ssr

variable {ι τ F V : Type}

/-- A call of `delete_source` or `delete_all_sources`. -/
inductive Deletion
  | source (id : ℕ)
  | all
  deriving DecidableEq, Repr

def Deletion.Covers : Deletion → ℕ → Prop
  | .source i, id => id = i
  | .all, _ => True

structure NetworkSubscriber (V : Type) where
  /-- `_source_levels` -/
  sourceLevels : OrdMap ℕ V

namespace NetworkSubscriber

def new : NetworkSubscriber V := { sourceLevels := .empty }

def deleteSource (s : NetworkSubscriber V) (id : ℕ) : NetworkSubscriber V :=
  { s with sourceLevels := s.sourceLevels.erase id }

def deleteAllSources (s : NetworkSubscriber V) : NetworkSubscriber V :=
  { s with sourceLevels := .empty }

def setSourceSignalLevel (s : NetworkSubscriber V) (id : ℕ) (level : V) : NetworkSubscriber V :=
  { s with sourceLevels := s.sourceLevels.insert id level }

/-- The sources in the message of `send_levels`, with their levels (which the message gives in dB).
-/
def sendLevels (s : NetworkSubscriber V) : List (ℕ × V) := s.sourceLevels.entries

def delete (s : NetworkSubscriber V) : Deletion → NetworkSubscriber V
  | .source id => s.deleteSource id
  | .all => s.deleteAllSources

/-- `set_source_output_levels` does nothing here. -/
def publish (s : NetworkSubscriber V) : Published V → NetworkSubscriber V
  | .signalLevel id level => s.setSourceSignalLevel id level
  | .outputLevels _ _ => s

end NetworkSubscriber

/-- What the publish of a deletion does next. -/
inductive Place
  /-- `RenderSubscriber`: `get_source(id)`, or the condition in the loop of `rem_all_sources` -/
  | renderer
  /-- `rem_source(source)`, which needs the lock -/
  | remSource (source : Ptr)
  /-- `_highest_id = 0`; `mark` ids had been given when the loop found the map empty -/
  | resetIds (mark : ℕ)
  /-- the subscriber number `next` after the renderer; `mark` ids had been given when the sources
  were gone from the renderer -/
  | subscriber (next mark : ℕ)
  deriving DecidableEq, Repr

structure Deleting where
  deletion : Deletion
  /-- the end of `_subscribers` when the loop began -/
  stop : ℕ
  place : Place
  deriving DecidableEq, Repr

/-- `update()` between taking and releasing the lock. -/
structure Updating (V : Type) where
  /-- what is being published and what comes after it -/
  published : List (Published V)
  next : ℕ
  stop : ℕ

structure LevelThreads (ι τ F V : Type) where
  querying : Querying F V
  given : List ℕ
  /-- `_subscribers` after the renderer -/
  subscribers : List ι
  connections : ι → NetworkSubscriber V
  deleting : τ → Option Deleting
  updating : Option (Updating V)

namespace LevelThreads

def init [FloatOps F] (cfg : RendererConfig) : LevelThreads ι τ F V :=
  { querying := .init cfg
    given := []
    subscribers := []
    connections := fun _ => .new
    deleting := fun _ => none
    updating := none }

def sourceMap (s : LevelThreads ι τ F V) : OrdMap ℕ Ptr := s.querying.renderer.sourceMap

inductive Action (ι τ V : Type)
  | subscribe (x : ι)
  | unsubscribe (x : ι)
  /-- `add_source` -/
  | newSource (p : SourceParams)
  /-- the realtime thread executes the oldest command -/
  | execute
  /-- `query()` in the realtime thread -/
  | query (reading : Ptr → Reading V)
  /-- a thread calls `delete_source` or `delete_all_sources` -/
  | delete (t : τ) (deletion : Deletion)
  /-- the next step of the deletion of this thread -/
  | proceed (t : τ)
  /-- `update()` takes the lock and begins to publish levels -/
  | lock
  /-- the next call of a subscriber in `update()` -/
  | publish
  /-- the end of `update()` -/
  | unlock

section
variable [DecidableEq τ]

def goTo (s : LevelThreads ι τ F V) (t : τ) (d : Deleting) (place : Place) : LevelThreads ι τ F V :=
  { s with deleting := Function.update s.deleting t (some { d with place }) }

variable [DecidableEq ι]

/-- The next step of a deletion; `none` while it waits for the lock or if an assertion fails. -/
def proceed (cfg : RendererConfig) [FloatOps F] [Zero V] (s : LevelThreads ι τ F V) (t : τ)
    (d : Deleting) : Option (LevelThreads ι τ F V) :=
  match d.place with
  | .renderer =>
    match d.deletion with
    | .source id => (s.querying.renderer.getSource id).map fun source => s.goTo t d (.remSource source)
    | .all =>
      match s.sourceMap.entries with
      | [] => some (s.goTo t d (.resetIds s.given.length))
      | e :: _ => some (s.goTo t d (.remSource e.2))
  | .remSource source =>
    if s.updating.isSome then none
    else
      (s.querying.step cfg (.remSource source)).map fun querying =>
        { s with querying }.goTo t d
          (match d.deletion with
          | .source _ => .subscriber 0 s.given.length
          | .all => .renderer)
  | .resetIds mark =>
    some ({ s with
      querying := { s.querying with renderer := { s.querying.renderer with highestId := 0 } }
      }.goTo t d (.subscriber 0 mark))
  | .subscriber next mark =>
    if next = d.stop then some { s with deleting := Function.update s.deleting t none }
    else
      s.subscribers[next]?.map fun x =>
        { s with
          connections := Function.update s.connections x ((s.connections x).delete d.deletion)
          }.goTo t d (.subscriber (next + 1) mark)

/-- The next call in `update()`, or the end of a loop over the subscribers. -/
def publish (s : LevelThreads ι τ F V) (u : Updating V) : Option (LevelThreads ι τ F V) :=
  match u.published with
  | [] => none
  | p :: ps =>
    if u.next = u.stop then
      some { s with
        updating := some { published := ps, next := 0, stop := s.subscribers.length } }
    else
      s.subscribers[u.next]?.map fun x =>
        { s with
          connections := Function.update s.connections x ((s.connections x).publish p)
          updating := some { u with next := u.next + 1 } }

def step (cfg : RendererConfig) [FloatOps F] [Zero V] (s : LevelThreads ι τ F V) :
    Action ι τ V → Option (LevelThreads ι τ F V)
  | .subscribe x => some { s with subscribers := Control.subscribe s.subscribers x }
  | .unsubscribe x => some { s with subscribers := Control.unsubscribe s.subscribers x }
  | .newSource p =>
    if s.updating.isSome then none
    else
      (s.querying.step cfg (.addSource p)).map fun querying =>
        { s with
          querying
          given := s.given ++ (s.querying.renderer.addSource cfg p).2.toOption.toList }
  | .execute => (s.querying.step cfg .execute).map fun querying => { s with querying }
  | .query reading =>
    (s.querying.step cfg (.query reading)).map fun querying => { s with querying }
  | .delete t deletion =>
    if (s.deleting t).isSome then none
    else
      some { s with
        deleting := Function.update s.deleting t
          (some { deletion, stop := s.subscribers.length, place := .renderer }) }
  | .proceed t => (s.deleting t).bind (s.proceed cfg t)
  | .lock =>
    if s.updating.isSome || !s.querying.executed then none
    else
      some { s with
        updating := some {
          published := s.querying.query.published s.sourceMap
          next := 0
          stop := s.subscribers.length } }
  | .publish => s.updating.bind s.publish
  | .unlock =>
    if s.updating.any (·.published.isEmpty) then
      (s.querying.step cfg .update).map fun querying => { s with querying, updating := none }
    else none

/-- The next step of the thread `t` calls `delete_source` or `delete_all_sources` of `x`. -/
def Calls (s : LevelThreads ι τ F V) (t : τ) (x : ι) (deletion : Deletion) (mark : ℕ) : Prop :=
  ∃ stop next, s.deleting t = some ⟨deletion, stop, .subscriber next mark⟩ ∧ next ≠ stop ∧
    s.subscribers[next]? = some x

end

end LevelThreads

end Net
