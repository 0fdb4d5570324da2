import Ssr.Lib.Broadcast
import Ssr.Control.View

/-!
# Two threads that publish (`Controller::_publish`)

`_publish` walks through `_subscribers` and calls one after the other; it takes no lock, and what a
`RenderSubscriber` locks is released at the end of each call. So the GUI and the network thread can
be in the loop at the same time, which is a `Lib.Broadcast` with the calls as deliveries.

A `Field` is one value that subscribers keep a copy of. `Update.effect` says what a call does with
the copy of a field, `Scene.held` and `View.held` are the copies of the Scene (and of a network
client that keeps a scene of its own) and of the renderer.
-/

set_option autoImplicit false

namespace Ssr

open Lib Broadcast

variable {F : Type}

inductive SourceField
  | position
  | orientation
  | gain
  | mute
  | name
  | propertiesFile
  | model
  | portName
  | fileName
  | fileChannel
  | positionFixed
  | fileLength
  deriving DecidableEq, Repr

inductive StateField
  | referencePosition
  | referenceOrientation
  | referenceOffsetPosition
  | referenceOffsetOrientation
  | masterVolume
  | amplitudeReferenceDistance
  | processingState
  deriving DecidableEq, Repr

inductive Field
  | source (id : ℕ) (field : SourceField)
  | state (field : StateField)
  deriving DecidableEq, Repr

namespace Field

def OfSource (id : ℕ) : Field → Bool
  | .source i _ => i = id
  | .state _ => false

def OfSomeSource : Field → Bool
  | .source _ _ => true
  | .state _ => false

/-- The renderer has a copy of this field, too. -/
def InRenderer : Field → Bool
  | .source _ .position | .source _ .orientation | .source _ .gain | .source _ .mute
  | .source _ .model | .state _ => true
  | .source _ _ => false

end Field

namespace Update

/-- The field that the call sets. -/
def field : Update F → Option Field
  | .newSource _ | .deleteSource _ | .deleteAllSources => none
  | .sourcePosition id _ => some (.source id .position)
  | .sourceOrientation id _ => some (.source id .orientation)
  | .sourceGain id _ => some (.source id .gain)
  | .sourceMute id _ => some (.source id .mute)
  | .sourceName id _ => some (.source id .name)
  | .sourcePropertiesFile id _ => some (.source id .propertiesFile)
  | .sourceModel id _ => some (.source id .model)
  | .sourcePortName id _ => some (.source id .portName)
  | .sourceFileName id _ => some (.source id .fileName)
  | .sourceFileChannel id _ => some (.source id .fileChannel)
  | .sourcePositionFixed id _ => some (.source id .positionFixed)
  | .sourceFileLength id _ => some (.source id .fileLength)
  | .referencePosition _ => some (.state .referencePosition)
  | .referenceOrientation _ => some (.state .referenceOrientation)
  | .referenceOffsetPosition _ => some (.state .referenceOffsetPosition)
  | .referenceOffsetOrientation _ => some (.state .referenceOffsetOrientation)
  | .masterVolume _ => some (.state .masterVolume)
  | .amplitudeReferenceDistance _ => some (.state .amplitudeReferenceDistance)
  | .processingState _ => some (.state .processingState)

/-- The call changes the field: creating or deleting a source changes all of its fields. -/
def touches : Update F → Field → Bool
  | .newSource id, k | .deleteSource id, k => k.OfSource id
  | .deleteAllSources, k => k.OfSomeSource
  | u, k => u.field = some k

end Update

/-- The call that would set the field to the value it has. -/
def Source.held (source : Source F) (id : ℕ) : SourceField → Update F
  | .position => .sourcePosition id source.position
  | .orientation => .sourceOrientation id source.orientation
  | .gain => .sourceGain id source.gain
  | .mute => .sourceMute id source.mute
  | .name => .sourceName id source.name
  | .propertiesFile => .sourcePropertiesFile id source.propertiesFile
  | .model => .sourceModel id source.model
  | .portName => .sourcePortName id source.portName
  | .fileName => .sourceFileName id source.audioFileName
  | .fileChannel => .sourceFileChannel id source.audioFileChannel
  | .positionFixed => .sourcePositionFixed id source.fixedPosition
  | .fileLength => .sourceFileLength id source.fileLength

/-- The copy of a field in the Scene, `none` if there is no such source. -/
def Scene.held (s : Scene F) : Field → Option (Update F)
  | .source id field => (s.sourceMap.find id).map fun source => source.held id field
  | .state .referencePosition => some (.referencePosition s.referencePosition)
  | .state .referenceOrientation => some (.referenceOrientation s.referenceOrientation)
  | .state .referenceOffsetPosition => some (.referenceOffsetPosition s.referenceOffsetPosition)
  | .state .referenceOffsetOrientation =>
    some (.referenceOffsetOrientation s.referenceOffsetOrientation)
  | .state .masterVolume => some (.masterVolume s.masterVolume)
  | .state .amplitudeReferenceDistance =>
    some (.amplitudeReferenceDistance s.amplitudeReferenceDistance)
  | .state .processingState => some (.processingState s.processingState)

/-- The same for the values of a source in the renderer, `none` for a field that it does not have.
-/
def SourceData.held (d : SourceData F) (id : ℕ) : SourceField → Option (Update F)
  | .position => some (.sourcePosition id d.position)
  | .orientation => some (.sourceOrientation id d.orientation)
  | .gain => some (.sourceGain id d.gain)
  | .mute => some (.sourceMute id d.mute)
  | .model => some (.sourceModel id d.model)
  | _ => none

/-- The copy of a field in the renderer. -/
def View.held (v : View F) : Field → Option (Update F)
  | .source id field => (v.sources id).bind fun d => d.held id field
  | .state .referencePosition => some (.referencePosition v.state.referencePosition)
  | .state .referenceOrientation => some (.referenceOrientation v.state.referenceOrientation)
  | .state .referenceOffsetPosition =>
    some (.referenceOffsetPosition v.state.referenceOffsetPosition)
  | .state .referenceOffsetOrientation =>
    some (.referenceOffsetOrientation v.state.referenceOffsetOrientation)
  | .state .masterVolume => some (.masterVolume v.state.masterVolume)
  | .state .amplitudeReferenceDistance =>
    some (.amplitudeReferenceDistance v.state.amplitudeReferenceDistance)
  | .state .processingState => some (.processingState v.state.processing)

section
variable [FloatOps F]

/-- What a call does with the copy of a field. -/
def Update.effect (u : Update F) (k : Field) (value : Option (Update F)) : Option (Update F) :=
  match u, k with
  | .newSource id, .source i field =>
    if i = id then some (value.getD (Source.new.held id field)) else value
  | .deleteSource id, .source i _ => if i = id then none else value
  | .deleteAllSources, .source _ _ => none
  | u, k => if u.field = some k then value.map fun _ => u else value

def Scene.handleAll (s : Scene F) (us : List (Update F)) : Scene F := us.foldl handle s

end

/-- The threads that publish. -/
inductive Thread
  | gui
  | network
  deriving DecidableEq, Repr

/-- The two loops over `n` subscribers. -/
abbrev Publishing (F : Type) := Broadcast.State Thread (Update F)

namespace Publishing

abbrev step (n : ℕ) (s : Publishing F) (e : Event Thread (Update F)) : Option (Publishing F) :=
  Broadcast.step n s e

/-- The calls that subscriber `i` has got for the field. -/
abbrev updates (s : Publishing F) (i : ℕ) (k : Field) : List (Update F) := s.log Update.touches i k

/-- No call overtakes an older publish that changes the same field. -/
abbrev InOrder (n : ℕ) (s : Publishing F) (e : Event Thread (Update F)) : Prop :=
  Broadcast.InOrder Update.touches n s e

/-- Of every field, any two subscribers have got the same updates in the same order, except that
one of them may be some updates ahead. -/
def SameOrder (n : ℕ) (s : Publishing F) : Prop :=
  ∀ i j k, i < n → j < n → s.updates i k <+: s.updates j k ∨ s.updates j k <+: s.updates i k

/-- A Scene (or a client) and a renderer that start with the same values have the same values. The
copy of the renderer gets a new source with the publish of `new_source`; the code adds it right
before that publish, with `add_source`, and `RenderSubscriber::new_source` does nothing. -/
def SameValues [FloatOps F] (n : ℕ) (s : Publishing F) : Prop :=
  ∀ i j k, i < n → j < n →
    (∀ scene client : Scene F, scene.held k = client.held k →
      (scene.handleAll (s.received i)).held k = (client.handleAll (s.received j)).held k) ∧
    (k.InRenderer → ∀ (scene : Scene F) (renderer : View F), scene.held k = renderer.held k →
      (scene.handleAll (s.received i)).held k = (renderer.applyAll (s.received j)).held k)

end Publishing

end Ssr
