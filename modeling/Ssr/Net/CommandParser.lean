import Ssr.Control.Controller

/-!
# Requests of network clients (`boostnetwork/commandparser.cpp`)

A request is an XML document whose elements are turned into calls of the controller, one after the
other. An element without an ID ends the request, and an assertion that fails ends the program; the
calls that have been made before remain. `string2time`, which reads the position of a `seek`, is a
parameter.
-/

set_option autoImplicit false

namespace Net

open Ssr Apf

variable {F : Type}

/-- The calls of `Publisher`. -/
inductive Call (F : Type)
  | newSource (args : SourceArgs F)
  | deleteSource (id : ℕ)
  | deleteAllSources
  | setSourcePosition (id : ℕ) (position : Position F)
  | setSourcePositionFixed (id : ℕ) (fixed : Bool)
  | setSourceOrientation (id : ℕ) (orientation : Orientation F)
  | setSourceGain (id : ℕ) (gain : F)
  | setSourceMute (id : ℕ) (mute : Bool)
  | setSourceName (id : ℕ) (name : String)
  | setSourcePropertiesFile (id : ℕ) (name : String)
  | setSourceModel (id : ℕ) (model : Model)
  | setSourcePortName (id : ℕ) (portName : String)
  | setReferencePosition (position : Position F)
  | setReferenceOrientation (orientation : Orientation F)
  | setReferenceOffsetPosition (position : Position F)
  | setReferenceOffsetOrientation (orientation : Orientation F)
  | setMasterVolume (volume : F)
  | saveSceneAsXML (fileName : String)
  | loadScene (fileName : String)
  | startProcessing
  | stopProcessing
  | transportStart
  | transportStop
  | transportLocate (time : F)
  | calibrateClient

/-- How the parser leaves an element or a request. -/
inductive Ending
  | finished
  /-- an element without an ID -/
  | returned
  /-- `assert(channel >= 0)` -/
  | assertFailed
  deriving DecidableEq, Repr

structure Parsed (F : Type) where
  calls : List (Call F)
  ending : Ending

namespace CommandParser

/-! ## Sources -/

/-- `S2A` for an `id_t`, an unsigned number of 32 bits; a negative number is taken modulo 2^32. -/
def S2AId (s : String) : Option ℕ :=
  (readInt (trim s.toList)).bind fun n =>
    if n.natAbs < 4294967296 then some (n % 4294967296).toNat else none

def isNew (node : Node) : Bool := (S2ABool (node.getAttribute "new")).getD false

/-- The ID, which a new source does not need. -/
def sourceId (node : Node) : Option ℕ :=
  if isNew node then some 0 else S2AId (node.getAttribute "id")

/-- The local variables of the loop over the children of a source. -/
structure Placement (F : Type) where
  position : Position F
  positionFixed : Bool
  orientation : Orientation F

/-- A call for a source that is not new. -/
def unlessNew (node : Node) (call : Call F) : List (Call F) := if isNew node then [] else [call]

variable [FloatOps F]

/-- The linear gain, if there is a volume. -/
def readGain (node : Node) : Option F :=
  (FloatOps.S2A (node.getAttribute "volume")).map FloatOps.dB2linear

/-- The body of the loop over the children of the source `node`. -/
def placeChild (node : Node) (id : ℕ) (p : Placement F) (inner : Node) :
    Placement F × List (Call F) :=
  if inner.name = "position" then
    let (position, positionCalls) : Position F × List (Call F) :=
      match FloatOps.S2A (inner.getAttribute "x"), FloatOps.S2A (inner.getAttribute "y") with
      | some x, some y => (⟨x, y⟩, unlessNew node (.setSourcePosition id ⟨x, y⟩))
      | _, _ => (.origin, [])
    match S2ABool (inner.getAttribute "fixed") with
    | some positionFixed =>
      ({ p with position, positionFixed },
        positionCalls ++ unlessNew node (.setSourcePositionFixed id positionFixed))
    | none => ({ p with position, positionFixed := false }, positionCalls)
  else if inner.name = "orientation" then
    match FloatOps.S2A (inner.getAttribute "azimuth") with
    | some azimuth =>
      ({ p with orientation := ⟨azimuth⟩ }, unlessNew node (.setSourceOrientation id ⟨azimuth⟩))
    | none => ({ p with orientation := .zero }, [])
  else (p, [])

def placeChildren (node : Node) (id : ℕ) : Placement F → List Node → Placement F × List (Call F)
  | p, [] => (p, [])
  | p, inner :: ns =>
    let (p, calls) := placeChild node id p inner
    let (p, rest) := placeChildren node id p ns
    (p, calls ++ rest)

/-- `file_or_port_name` and `channel`, unless the assertion fails. -/
def fileOrPortName (node : Node) : Option (String × Int32) :=
  let portName := node.getAttribute "port"
  let fileName := node.getAttribute "file"
  match S2AInt (node.getAttribute "channel") with
  | some channel =>
    if channel.toInt < 0 then none
    -- 'channel' is only allowed if a file name is also specified
    else if fileName = "" then some (portName, 0)
    else some (fileName, channel)
  | none => if fileName ≠ "" then some (fileName, 1) else some (portName, 0)

/-- The calls for the attributes of a source that is not new. -/
def attributeCalls (node : Node) (id : ℕ) : List (Call F) :=
  let name := node.getAttribute "name"
  let propertiesFile := node.getAttribute "properties_file"
  let portName := node.getAttribute "port"
  (match readGain node with
    | some gain => unlessNew node (.setSourceGain id gain)
    | none => []) ++
  (match S2ABool (node.getAttribute "mute") with
    | some muted => unlessNew node (.setSourceMute id muted)
    | none => []) ++
  (if name ≠ "" then unlessNew node (.setSourceName id name) else []) ++
  (if propertiesFile ≠ "" then unlessNew node (.setSourcePropertiesFile id propertiesFile)
    else []) ++
  (match S2AModel (node.getAttribute "model") with
    | some model => unlessNew node (.setSourceModel id model)
    | none => []) ++
  (if portName ≠ "" then unlessNew node (.setSourcePortName id portName) else [])

/-- The call of `new_source` for a new source. -/
def newSourceCall (node : Node) (p : Placement F) (fileOrPortName : String) (channel : Int32) :
    List (Call F) :=
  if isNew node ∧ fileOrPortName ≠ "" then
    [.newSource {
      name := node.getAttribute "name"
      model := (S2AModel (node.getAttribute "model")).getD .point
      fileOrPortName
      channel
      position := p.position
      positionFixed := p.positionFixed
      orientation := p.orientation
      gain := (readGain node).getD (FloatOps.ofInt 1)
      muted := (S2ABool (node.getAttribute "mute")).getD false
      propertiesFile := node.getAttribute "properties_file" }]
  else []

/-- The end of `<source>`, from the assertion on. -/
def finishSource (node : Node) (p : Placement F) (calls : List (Call F)) :
    Option (String × Int32) → Parsed F
  | none => { calls, ending := .assertFailed }
  | some (name, channel) =>
    { calls := calls ++ newSourceCall node p name channel, ending := .finished }

/-- `<source>` -/
def parseSource (node : Node) : Parsed F :=
  match sourceId node with
  | none => { calls := [], ending := .returned }
  | some id =>
    let (p, calls) := placeChildren node id ⟨.origin, false, .zero⟩ node.children
    finishSource node p (calls ++ attributeCalls node id) (fileOrPortName node)

/-! ## The other elements -/

/-- `<reference>` and `<reference_offset>`, with the calls that they make. -/
def referenceCalls (setPosition : Position F → Call F) (setOrientation : Orientation F → Call F)
    (node : Node) : List (Call F) :=
  node.children.flatMap fun inner =>
    if inner.name = "position" then
      match FloatOps.S2A (inner.getAttribute "x"), FloatOps.S2A (inner.getAttribute "y") with
      | some x, some y => [setPosition ⟨x, y⟩]
      | _, _ => []
    else if inner.name = "orientation" then
      match FloatOps.S2A (inner.getAttribute "azimuth") with
      | some azimuth => [setOrientation ⟨azimuth⟩]
      | none => []
    else []

/-- `<delete>` -/
def deleteCalls (node : Node) : List (Call F) :=
  node.children.flatMap fun inner =>
    if inner.name = "source" then
      match S2AId (inner.getAttribute "id") with
      | some id => [.deleteSource id]
      | none => []
    else []

/-- `<scene>` -/
def sceneCalls (node : Node) : List (Call F) :=
  let saveScene := node.getAttribute "save"
  let loadScene := node.getAttribute "load"
  let volume := node.getAttribute "volume"
  (if saveScene ≠ "" then [.saveSceneAsXML saveScene] else []) ++
  (if loadScene ≠ "" then [.loadScene loadScene] else []) ++
  (if volume = "" then []
    else match FloatOps.S2A volume with
    | some volume => [.setMasterVolume (FloatOps.dB2linear volume)]
    | none => []) ++
  (if S2ABool (node.getAttribute "clear") = some true then [.deleteAllSources] else [])

variable (string2time : String → Option F)

/-- `<state>` -/
def stateCalls (node : Node) : List (Call F) :=
  let processing := node.getAttribute "processing"
  let transport := node.getAttribute "transport"
  (if processing = "start" then [.startProcessing]
    else if processing = "stop" then [.stopProcessing] else []) ++
  (if transport = "start" then [.transportStart]
    else if transport = "stop" then [.transportStop]
    else if transport = "rewind" then [.transportLocate (FloatOps.ofInt 0)] else []) ++
  (match string2time (node.getAttribute "seek") with
    | some time => [.transportLocate time]
    | none => []) ++
  (if node.getAttribute "tracker" = "reset" then [.calibrateClient] else [])

/-! ## Requests -/

/-- The body of the loop over the elements of a request. -/
def parseElement (node : Node) : Parsed F :=
  if node.name = "source" then parseSource node
  else
    { calls :=
        if node.name = "reference" then
          referenceCalls .setReferencePosition .setReferenceOrientation node
        else if node.name = "reference_offset" then
          referenceCalls .setReferenceOffsetPosition .setReferenceOffsetOrientation node
        else if node.name = "delete" then deleteCalls node
        else if node.name = "scene" then sceneCalls node
        else if node.name = "state" then stateCalls string2time node
        else []
      ending := .finished }

def parseElements : List Node → Parsed F
  | [] => { calls := [], ending := .finished }
  | node :: nodes =>
    match parseElement string2time node with
    | ⟨calls, .finished⟩ =>
      let rest := parseElements nodes
      { rest with calls := calls ++ rest.calls }
    | stopped => stopped

/-- `parse_cmd`; `cmd` is the root of the document, if the text can be parsed. -/
def parseCmd (cmd : Option Node) : Parsed F :=
  match cmd with
  | none => { calls := [], ending := .finished }
  | some root =>
    if root.name = "request" then parseElements string2time root.children
    else { calls := [], ending := .finished }

end CommandParser

end Net
