import Ssr.Renderer.RendererBase
import Ssr.Path.PosixPathTools
import Ssr.Xml.Node

/-!
# The Controller (`controller.h`)

A publish calls the Scene first and the renderer second. All operations of `Publisher` that change
what they know are defined here, `load_scene` with each of its exits. `Config` is fixed when the
Controller is constructed; `Environment` is what the outside world (files, ecasound) contains at the
moment of a call.
-/

set_option autoImplicit false

namespace Ssr

open Lib Apf PosixPathTools

variable {F : Type}

/-- The members of `_conf` that are used here. -/
structure Config (F : Type) where
  renderer : RendererConfig
  /-- compiled with `ENABLE_ECASOUND` -/
  ecasound : Bool
  sceneFileName : String
  xmlSchema : String
  standAmplRefDist : F
  inputPortPrefix : String

/-- A sound file that the audio player has opened. -/
structure Soundfile where
  channels : ℕ
  clientName : String
  length : ℤ
  deriving DecidableEq, Repr

structure Environment (F : Type) where
  /-- the current working directory -/
  cwd : String
  /-- the document in a file, if it can be parsed -/
  loadFile : String → Option Node
  /-- validate a document with a schema file -/
  validate : String → Node → Bool
  /-- `Soundfile::create` -/
  soundfile : String → Option Soundfile
  /-- number of channels that `get_format` finds, unless it throws -/
  channels : String → Option ℕ
  /-- the random positions of `_create_spontaneous_scene` -/
  random : ℕ → Position F

/-- The arguments of `new_source` (`or_fixed` is ignored there). -/
structure SourceArgs (F : Type) where
  name : String
  model : Model
  fileOrPortName : String
  channel : Int32
  position : Position F
  positionFixed : Bool
  orientation : Orientation F
  gain : F
  muted : Bool
  propertiesFile : String
  deriving DecidableEq, Repr

structure Controller (F : Type) where
  scene : Scene F
  renderer : Renderer F
  /-- `_file_map` of the audio player, empty while there is no audio player -/
  audioPlayer : List (String × Soundfile)

/-- How a call ends: it returns, or it throws. -/
inductive Outcome
  | returned (result : Bool)
  | threw
  deriving DecidableEq, Repr

/-! ## Audio player -/

/-- `AudioPlayer::get_port_name`, with the new file map. -/
def getPortName (env : Environment F) (player : List (String × Soundfile)) (fileName : String)
    (channel : Int32) : List (String × Soundfile) × String :=
  let portName (file : Soundfile) := file.clientName ++ ":" ++ "channel" ++ "_" ++ A2SInt channel
  match player.lookup fileName with
  | some file =>
    if channel.toInt > file.channels then (player, "") else (player, portName file)
  | none =>
    match env.soundfile fileName with
    | none => (player, "")
    | some file =>
      if channel.toInt > file.channels then (player, "")
      else ((fileName, file) :: player, portName file)

def getFileLength (player : List (String × Soundfile)) (fileName : String) : ℤ :=
  match player.lookup fileName with
  | some file => file.length
  | none => 0

/-! ## Reading a scene file -/

/-- `S2A` for a `model_t`. -/
def S2AModel (s : String) : Option Model :=
  let word := trim s.toList
  if word = "point".toList then some .point
  else if word = "plane".toList then some .plane
  else if word = "line".toList then some .line
  else if word = "directional".toList then some .directional
  else none

section Reading
variable [FloatOps F]

/-- `get_position`, together with the attribute `fixed`. -/
def getPosition (node : Node) : Option (Position F × Bool) :=
  match node.children.find? (·.name = "position") with
  | none => none
  | some i =>
    match FloatOps.S2A (i.getAttribute "x"), FloatOps.S2A (i.getAttribute "y") with
    | some x, some y => some (⟨x, y⟩, (S2ABool (i.getAttribute "fixed")).getD false)
    | _, _ => none

def getOrientation (node : Node) : Option (Orientation F) :=
  match node.children.find? (·.name = "orientation") with
  | none => none
  | some i => (FloatOps.S2A (i.getAttribute "azimuth")).map .mk

/-- `get_file_or_port_name`: the name and the channel, which is 0 for a port. -/
def getFileOrPortName (node : Node) : Except Fault (String × Int32) :=
  match node.children.find? fun i => i.name = "file" || i.name = "port" with
  | none => .ok ("", 0)
  | some i =>
    if i.name = "file" then
      let channel := (S2AInt (i.getAttribute "channel")).getD 1
      if channel.toInt < 0 then .error .assertChannel else .ok (i.getContent, channel)
    else .ok (i.getContent, 0)

/-- The master volume in dB. -/
def readVolume (doc : Node) : F :=
  match doc.evalXpath "scene_setup" "volume" with
  | [] => FloatOps.ofInt 0
  | node :: _ => (FloatOps.S2A node.getContent).getD (FloatOps.ofInt 0)

def readAmplitudeReferenceDistance (cfg : Config F) (doc : Node) : F :=
  match doc.evalXpath "scene_setup" "amplitude_reference_distance" with
  | [] => cfg.standAmplRefDist
  | node :: _ => (FloatOps.S2A node.getContent).getD cfg.standAmplRefDist

/-- The reference, with defaults for what is missing; `none` if there is more than one. -/
def readReference (doc : Node) : Option (Position F × Orientation F) :=
  let default : Position F × Orientation F := (.origin, ⟨FloatOps.ofInt 90⟩)
  match doc.evalXpath "scene_setup" "reference" with
  | [] => some default
  | [node] =>
    some (((getPosition node).map (·.1)).getD default.1, (getOrientation node).getD default.2)
  | _ => none

/-- The body of the loop over the sources up to its call of `new_source`; `none` if the source is
not loaded. -/
def readSource (cfg : Config F) (env : Environment F) (fileName : String) (node : Node) :
    Except Fault (Option (SourceArgs F)) :=
  let propertiesFile :=
    makePathRelativeToCurrentDir env.cwd (node.getAttribute "properties_file") fileName
  let model := (S2AModel (node.getAttribute "model")).getD .unknown
  let model := if model = .unknown then .point else model
  let orientation :=
    match getOrientation node with
    | some orientation => some orientation
    -- orientation is optional for point sources
    | none => if model = .point then some .zero else none
  match getPosition node, orientation with
  | some (position, fixed), some orientation => do
    let (name, channel) ← getFileOrPortName node
    let fileOrPortName :=
      if channel = 0 then if name ≠ "" then cfg.inputPortPrefix ++ name else name
      else makePathRelativeToCurrentDir env.cwd name fileName
    let gaindB := (FloatOps.S2A (node.getAttribute "volume")).getD (FloatOps.ofInt 0)
    return some {
      name := node.getAttribute "name"
      model
      fileOrPortName
      channel
      position
      positionFixed := fixed
      orientation
      gain := FloatOps.dB2linear gaindB
      muted := (S2ABool (node.getAttribute "mute")).getD false
      propertiesFile }
  | _, _ => return none

end Reading

/-! ## Publishing -/

namespace Controller

variable [FloatOps F] (cfg : Config F)

/-- `_publish` -/
def publish (c : Controller F) (u : Update F) : Except Fault (Controller F) := do
  let renderer ← c.renderer.handle cfg.renderer u
  return { c with scene := c.scene.handle u, renderer }

def publishAll : List (Update F) → Controller F → Except Fault (Controller F)
  | [], c => .ok c
  | u :: us, c => do
    let c ← c.publish cfg u
    publishAll us c

variable (c : Controller F)

def deleteSource (id : ℕ) := c.publish cfg (.deleteSource id)

/-- `delete_all_sources` also shuts down the audio player. -/
def deleteAllSources : Except Fault (Controller F) := do
  let c ← c.publish cfg .deleteAllSources
  return { c with audioPlayer := [] }

/-- `set_source_position`: nothing is published if the source may not be moved. -/
def setSourcePosition (id : ℕ) (position : Position F) : Except Fault (Controller F) :=
  if c.scene.getSourcePositionFixed id then .ok c
  else c.publish cfg (.sourcePosition id position)

def setSourceOrientation (id : ℕ) (orientation : Orientation F) :=
  c.publish cfg (.sourceOrientation id orientation)

def setSourceGain (id : ℕ) (gain : F) := c.publish cfg (.sourceGain id gain)

def setSourceMute (id : ℕ) (mute : Bool) := c.publish cfg (.sourceMute id mute)

def setSourceName (id : ℕ) (name : String) := c.publish cfg (.sourceName id name)

def setSourcePropertiesFile (id : ℕ) (name : String) :=
  c.publish cfg (.sourcePropertiesFile id name)

def setSourceModel (id : ℕ) (model : Model) := c.publish cfg (.sourceModel id model)

def setSourcePortName (id : ℕ) (portName : String) := c.publish cfg (.sourcePortName id portName)

def setSourceFileName (id : ℕ) (fileName : String) := c.publish cfg (.sourceFileName id fileName)

def setSourceFileChannel (id : ℕ) (channel : Int32) :=
  c.publish cfg (.sourceFileChannel id channel)

def setSourcePositionFixed (id : ℕ) (fixed : Bool) :=
  c.publish cfg (.sourcePositionFixed id fixed)

def setReferencePosition (position : Position F) := c.publish cfg (.referencePosition position)

def setReferenceOrientation (orientation : Orientation F) :=
  c.publish cfg (.referenceOrientation orientation)

def setReferenceOffsetPosition (position : Position F) :=
  c.publish cfg (.referenceOffsetPosition position)

def setReferenceOffsetOrientation (orientation : Orientation F) :=
  c.publish cfg (.referenceOffsetOrientation orientation)

def setMasterVolume (volume : F) := c.publish cfg (.masterVolume volume)

/-- `set_amplitude_reference_distance`: distances up to 1 are refused. -/
def setAmplitudeReferenceDistance (dist : F) : Except Fault (Controller F) :=
  if FloatOps.gt dist (FloatOps.ofInt 1) then c.publish cfg (.amplitudeReferenceDistance dist)
  else .ok c

def setProcessingState (state : Bool) := c.publish cfg (.processingState state)

def startProcessing : Except Fault (Controller F) :=
  if !c.scene.processingState then c.setProcessingState cfg true else .ok c

def stopProcessing : Except Fault (Controller F) :=
  if c.scene.processingState then c.setProcessingState cfg false else .ok c

/-! ## New sources -/

/-- What `new_source` publishes once the renderer has added the source. -/
def newSourceUpdates (a : SourceArgs F) (id : ℕ) (portName fileName : String) (fileLength : ℤ) :
    List (Update F) :=
  [.newSource id,
    -- mute while transmitting data
    .sourceMute id true, .sourceGain id a.gain, .sourcePosition id a.position,
    .sourcePositionFixed id a.positionFixed, .sourceOrientation id a.orientation,
    .sourceName id a.name, .sourceModel id a.model, .sourcePortName id portName] ++
  (if fileName ≠ "" then [.sourceFileName id fileName, .sourceFileChannel id a.channel] else []) ++
  [.sourceFileLength id fileLength, .sourcePropertiesFile id a.propertiesFile,
    -- finally, unmute if requested
    .sourceMute id a.muted]

/-- `new_source` from the call of `add_source` on. -/
def addSource (a : SourceArgs F) (portName fileName : String) (fileLength : ℤ) :
    Except Fault (Controller F) :=
  let p := { connectTo := portName, propertiesFile := a.propertiesFile }
  match c.renderer.addSource cfg.renderer p with
  | (renderer, .error _) => .ok { c with renderer }
  | (renderer, .ok id) =>
    publishAll cfg (newSourceUpdates a id portName fileName fileLength) { c with renderer }

def newSource (env : Environment F) (a : SourceArgs F) : Except Fault (Controller F) :=
  if a.channel.toInt < 0 then .error .assertChannel
  else if a.channel.toInt > 0 then
    if cfg.ecasound then
      let r := getPortName env c.audioPlayer a.fileOrPortName a.channel
      let fileLength := getFileLength r.1 a.fileOrPortName
      { c with audioPlayer := r.1 }.addSource cfg a r.2 a.fileOrPortName fileLength
    else .ok c
  else c.addSource cfg a a.fileOrPortName "" 0

def newSources (env : Environment F) : List (SourceArgs F) → Controller F →
    Except Fault (Controller F)
  | [], c => .ok c
  | a :: as, c => do
    let c ← c.newSource cfg env a
    newSources env as c

/-! ## load_scene -/

/-- The loop over the sources of a scene file. -/
def loadSources (env : Environment F) (fileName : String) : List Node → Controller F →
    Except Fault (Controller F)
  | [], c => .ok c
  | node :: nodes, c => do
    match ← readSource cfg env fileName node with
    | none => loadSources env fileName nodes c
    | some a =>
      let c ← c.newSource cfg env a
      loadSources env fileName nodes c

/-- Set the reference and reset its offset. -/
def loadReference (position : Position F) (orientation : Orientation F) :
    Except Fault (Controller F) := do
  let c ← c.setReferencePosition cfg position
  let c ← c.setReferenceOrientation cfg orientation
  let c ← c.setReferenceOffsetPosition cfg .origin
  c.setReferenceOffsetOrientation cfg .zero

/-- `_scene.set_amplitude_reference_distance` -/
def setSceneDistance (distance : F) : Controller F :=
  { c with scene := { c.scene with amplitudeReferenceDistance := distance } }

/-- `load_scene` for a valid document. -/
def loadDocument (env : Environment F) (fileName : String) (doc : Node) :
    Except Fault (Controller F × Outcome) := do
  let c ← c.setMasterVolume cfg (FloatOps.dB2linear (readVolume doc))
  let c := c.setSceneDistance (readAmplitudeReferenceDistance cfg doc)
  match readReference doc with
  | none => return (c, .returned false)
  | some (position, orientation) =>
    let c ← c.loadReference cfg position orientation
    let c ← loadSources cfg env fileName (doc.evalXpath "scene_setup" "source") c
    return (c, .returned true)

/-- `load_scene` for a file with extension `asd`, before it starts the processing. -/
def loadAsd (env : Environment F) (fileName : String) : Except Fault (Controller F × Outcome) :=
  match env.loadFile fileName with
  | none => .ok (c, .returned false)
  | some doc =>
    if cfg.xmlSchema = "" then .ok (c, .returned false)
    else if env.validate cfg.xmlSchema doc then c.loadDocument cfg env fileName doc
    else .ok (c, .returned false)

/-- The sources of a spontaneous scene with `channels` channels. -/
def spontaneousSources (env : Environment F) (fileName : String) (channels : ℕ) :
    List (SourceArgs F) :=
  let sourceName := String.ofList (fileName.toList.drop (match rfind '/' fileName.toList with
    | some i => i + 1
    | none => 0))
  let distance : F := FloatOps.div (FloatOps.ofInt 5) (FloatOps.ofInt 2)
  let source (name : String) (model : Model) (channel : Int32) (position : Position F)
      (azimuth : ℤ) : SourceArgs F :=
    { name, model, fileOrPortName := fileName, channel, position, positionFixed := false
      orientation := ⟨FloatOps.ofInt azimuth⟩
      gain := FloatOps.dB2linear (FloatOps.ofInt 0)
      muted := false
      propertiesFile := "" }
  match channels with
  | 1 => [source sourceName .point 1 ⟨FloatOps.ofInt 0, distance⟩ 0]
  | 2 =>
    let third : F := FloatOps.div FloatOps.pi (FloatOps.ofInt 3)
    let x := FloatOps.mul distance (FloatOps.cos third)
    let y := FloatOps.mul distance (FloatOps.sin third)
    [source (sourceName ++ " left") .plane 1 ⟨FloatOps.neg x, y⟩ (-60),
      source (sourceName ++ " right") .plane 2 ⟨x, y⟩ (-120)]
  | n =>
    (List.range n).map fun i =>
      source (sourceName ++ " " ++ toString (i + 1)) .point (Int32.ofNat (i + 1)) (env.random i) 0

def createSpontaneousScene (env : Environment F) (fileName : String) :
    Except Fault (Controller F × Outcome) :=
  if cfg.ecasound then
    match env.channels fileName with
    | none => .ok (c, .threw)
    | some 0 => .ok (c, .returned false)
    | some channels => do
      let c ← c.setMasterVolume cfg (FloatOps.dB2linear (FloatOps.ofInt (-6)))
      let c ← c.setAmplitudeReferenceDistance cfg cfg.standAmplRefDist
      let c ← c.loadReference cfg .origin ⟨FloatOps.ofInt 90⟩
      let c ← newSources cfg env (spontaneousSources env fileName channels) c
      return (c, .returned true)
  else .ok (c, .returned false)

/-- The branches of `load_scene` for the kinds of files. -/
def loadSceneFile (env : Environment F) (fileName : String) :
    Except Fault (Controller F × Outcome) :=
  if getFileExtension fileName = "asd" then c.loadAsd cfg env fileName
  else c.createSpontaneousScene cfg env fileName

def loadScene (env : Environment F) (fileName : String) :
    Except Fault (Controller F × Outcome) := do
  let c ← c.stopProcessing cfg
  let c ← c.deleteAllSources cfg
  if fileName = "" then return (c, .returned true)
  else if getFileExtension fileName = "" then return (c, .returned false)
  else
    let r ← c.loadSceneFile cfg env fileName
    match r.2 with
    | .returned true =>
      let c ← r.1.startProcessing cfg
      return (c, .returned true)
    | _ => return r

/-- A binaural renderer that is started with a sound file. -/
def soundfileConfig : Config ℤ :=
  { renderer := ⟨.binaural, 2, fun _ => none⟩
    ecasound := true
    sceneFileName := "a.wav"
    xmlSchema := "asdf.xsd"
    standAmplRefDist := 3
    inputPortPrefix := "" }

/-- All sound files have one channel, and there are no scene files. -/
def monoEnvironment : Environment ℤ :=
  { cwd := "/"
    loadFile := fun _ => none
    validate := fun _ _ => true
    soundfile := fun _ => some ⟨1, "a", 0⟩
    channels := fun _ => some 1
    random := fun _ => .origin }

/-- All scene files are empty. -/
def emptySceneEnvironment : Environment ℤ :=
  { monoEnvironment with
    loadFile := fun _ => some (.element "asdf" [] [.element "scene_setup" [] []]) }

/-- The constructor throws unless the scene file can be loaded. -/
def new (env : Environment F) : Option (Controller F) :=
  match loadScene cfg ⟨.new, .new cfg.renderer, []⟩ env cfg.sceneFileName with
  | .ok (c, .returned true) => some c
  | _ => none

end Controller

/-! ## Runs -/

/-- A call of a `Publisher` operation by the one thread that makes such calls, or the execution of
the oldest pending command by the realtime thread. -/
inductive Op (F : Type)
  | newSource (env : Environment F) (a : SourceArgs F)
  | deleteSource (id : ℕ)
  | deleteAllSources
  | setSourcePosition (id : ℕ) (position : Position F)
  | setSourceOrientation (id : ℕ) (orientation : Orientation F)
  | setSourceGain (id : ℕ) (gain : F)
  | setSourceMute (id : ℕ) (mute : Bool)
  | setSourceName (id : ℕ) (name : String)
  | setSourcePropertiesFile (id : ℕ) (name : String)
  | setSourceModel (id : ℕ) (model : Model)
  | setSourcePortName (id : ℕ) (portName : String)
  | setSourceFileName (id : ℕ) (fileName : String)
  | setSourceFileChannel (id : ℕ) (channel : Int32)
  | setSourcePositionFixed (id : ℕ) (fixed : Bool)
  | setReferencePosition (position : Position F)
  | setReferenceOrientation (orientation : Orientation F)
  | setReferenceOffsetPosition (position : Position F)
  | setReferenceOffsetOrientation (orientation : Orientation F)
  | setMasterVolume (volume : F)
  | setAmplitudeReferenceDistance (dist : F)
  | setProcessingState (state : Bool)
  | startProcessing
  | stopProcessing
  | loadScene (env : Environment F) (fileName : String)
  | execute

namespace Controller

variable [FloatOps F] (cfg : Config F)

/-- The realtime thread executes the oldest command. -/
def execute (c : Controller F) : Option (Controller F) :=
  (c.renderer.step cfg.renderer .execute).map fun renderer => { c with renderer }

/-- A call that faults ends the program. -/
def step (c : Controller F) : Op F → Option (Controller F)
  | .newSource env a => (c.newSource cfg env a).toOption
  | .deleteSource id => (c.deleteSource cfg id).toOption
  | .deleteAllSources => (c.deleteAllSources cfg).toOption
  | .setSourcePosition id position => (c.setSourcePosition cfg id position).toOption
  | .setSourceOrientation id orientation => (c.setSourceOrientation cfg id orientation).toOption
  | .setSourceGain id gain => (c.setSourceGain cfg id gain).toOption
  | .setSourceMute id mute => (c.setSourceMute cfg id mute).toOption
  | .setSourceName id name => (c.setSourceName cfg id name).toOption
  | .setSourcePropertiesFile id name => (c.setSourcePropertiesFile cfg id name).toOption
  | .setSourceModel id model => (c.setSourceModel cfg id model).toOption
  | .setSourcePortName id portName => (c.setSourcePortName cfg id portName).toOption
  | .setSourceFileName id fileName => (c.setSourceFileName cfg id fileName).toOption
  | .setSourceFileChannel id channel => (c.setSourceFileChannel cfg id channel).toOption
  | .setSourcePositionFixed id fixed => (c.setSourcePositionFixed cfg id fixed).toOption
  | .setReferencePosition position => (c.setReferencePosition cfg position).toOption
  | .setReferenceOrientation orientation => (c.setReferenceOrientation cfg orientation).toOption
  | .setReferenceOffsetPosition position => (c.setReferenceOffsetPosition cfg position).toOption
  | .setReferenceOffsetOrientation orientation =>
    (c.setReferenceOffsetOrientation cfg orientation).toOption
  | .setMasterVolume volume => (c.setMasterVolume cfg volume).toOption
  | .setAmplitudeReferenceDistance dist => (c.setAmplitudeReferenceDistance cfg dist).toOption
  | .setProcessingState state => (c.setProcessingState cfg state).toOption
  | .startProcessing => (c.startProcessing cfg).toOption
  | .stopProcessing => (c.stopProcessing cfg).toOption
  | .loadScene env fileName => ((c.loadScene cfg env fileName).map (·.1)).toOption
  | .execute => c.execute cfg

end Controller

end Ssr
