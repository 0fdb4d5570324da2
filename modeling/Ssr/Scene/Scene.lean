import Ssr.Lib.OrdMap
import Ssr.Scene.Source
import Mathlib.Order.Nat

/-!
# The Scene (`scene.cpp`, `subscriber.h`)

`Update` has one constructor for each member function of `Subscriber` that changes what the Scene or
the renderer knows about sources, reference, volume and processing; a publish sends an `Update` to
all subscribers. `Scene.handle` is the Scene's side of it. Every setter for a member of a source is
`setSourceMember` with the source's own member.
-/

set_option autoImplicit false

namespace Ssr

open Lib

variable {F : Type}

/-- A call of a member function of `Subscriber`. -/
inductive Update (F : Type)
  | newSource (id : ℕ)
  | deleteSource (id : ℕ)
  | deleteAllSources
  | sourcePosition (id : ℕ) (position : Position F)
  | sourceOrientation (id : ℕ) (orientation : Orientation F)
  | sourceGain (id : ℕ) (gain : F)
  | sourceMute (id : ℕ) (mute : Bool)
  | sourceName (id : ℕ) (name : String)
  | sourcePropertiesFile (id : ℕ) (name : String)
  | sourceModel (id : ℕ) (model : Model)
  | sourcePortName (id : ℕ) (portName : String)
  | sourceFileName (id : ℕ) (fileName : String)
  | sourceFileChannel (id : ℕ) (fileChannel : Int32)
  | sourcePositionFixed (id : ℕ) (fixed : Bool)
  | sourceFileLength (id : ℕ) (length : ℤ)
  | referencePosition (position : Position F)
  | referenceOrientation (orientation : Orientation F)
  | referenceOffsetPosition (position : Position F)
  | referenceOffsetOrientation (orientation : Orientation F)
  | masterVolume (volume : F)
  | amplitudeReferenceDistance (distance : F)
  | processingState (state : Bool)
  deriving DecidableEq, Repr

structure Scene (F : Type) where
  sourceMap : OrdMap ℕ (Source F)
  referencePosition : Position F
  referenceOrientation : Orientation F
  referenceOffsetPosition : Position F
  referenceOffsetOrientation : Orientation F
  masterVolume : F
  amplitudeReferenceDistance : F
  processingState : Bool

namespace Scene

/-- The constructor. -/
def new [FloatOps F] : Scene F :=
  { sourceMap := .empty
    referencePosition := .origin
    referenceOrientation := ⟨FloatOps.ofInt 90⟩
    referenceOffsetPosition := .origin
    referenceOffsetOrientation := .zero
    masterVolume := FloatOps.ofInt 1
    amplitudeReferenceDistance := FloatOps.ofInt 3
    processingState := true }

/-- `new_source`: does nothing if the id exists already. -/
def newSource [FloatOps F] (s : Scene F) (id : ℕ) : Scene F :=
  match s.sourceMap.find id with
  | some _ => s
  | none => { s with sourceMap := s.sourceMap.insert id .new }

def deleteSource (s : Scene F) (id : ℕ) : Scene F :=
  { s with sourceMap := s.sourceMap.erase id }

def deleteAllSources (s : Scene F) : Scene F := { s with sourceMap := .empty }

/-- `_set_source_member`: nothing happens if there is no such source. -/
def setSourceMember (s : Scene F) (id : ℕ) (assign : Source F → Source F) : Scene F :=
  { s with sourceMap := s.sourceMap.modify id assign }

def getSourcePositionFixed (s : Scene F) (id : ℕ) : Bool :=
  match s.sourceMap.find id with
  | some source => source.fixedPosition
  | none => false

def handle [FloatOps F] (s : Scene F) : Update F → Scene F
  | .newSource id => s.newSource id
  | .deleteSource id => s.deleteSource id
  | .deleteAllSources => s.deleteAllSources
  | .sourcePosition id position => s.setSourceMember id ({ · with position })
  | .sourceOrientation id orientation => s.setSourceMember id ({ · with orientation })
  | .sourceGain id gain => s.setSourceMember id ({ · with gain })
  | .sourceMute id mute => s.setSourceMember id ({ · with mute })
  | .sourceName id name => s.setSourceMember id ({ · with name })
  | .sourcePropertiesFile id name => s.setSourceMember id ({ · with propertiesFile := name })
  | .sourceModel id model => s.setSourceMember id ({ · with model })
  | .sourcePortName id portName => s.setSourceMember id ({ · with portName })
  | .sourceFileName id fileName => s.setSourceMember id ({ · with audioFileName := fileName })
  | .sourceFileChannel id fileChannel =>
    s.setSourceMember id ({ · with audioFileChannel := fileChannel })
  | .sourcePositionFixed id fixed => s.setSourceMember id ({ · with fixedPosition := fixed })
  | .sourceFileLength id length => s.setSourceMember id ({ · with fileLength := length })
  | .referencePosition position => { s with referencePosition := position }
  | .referenceOrientation orientation => { s with referenceOrientation := orientation }
  | .referenceOffsetPosition position => { s with referenceOffsetPosition := position }
  | .referenceOffsetOrientation orientation => { s with referenceOffsetOrientation := orientation }
  | .masterVolume volume => { s with masterVolume := volume }
  | .amplitudeReferenceDistance distance => { s with amplitudeReferenceDistance := distance }
  | .processingState state => { s with processingState := state }

end Scene

end Ssr
