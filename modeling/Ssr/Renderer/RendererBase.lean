import Ssr.Renderer.Command
import Ssr.Scene.Scene

/-!
# The non-realtime side of a renderer (`rendererbase.h`, `nfchoarenderer.h`)

`addSource` and `remSource` are the member functions of `RendererBase`; what a source does in
`connect()` and `disconnect()` depends on the kind of the renderer. `Renderer.handle` is the
`RenderSubscriber`. Everything that concerns the realtime thread goes through `pending`, the
commands that are queued and not yet executed (while the queue is inactive each command is executed
right after its push).
-/

set_option autoImplicit false

namespace Ssr

open Lib

variable {F : Type}

inductive Kind
  | binaural
  | brs
  | generic
  | wfs
  | aap
  | vbap
  | nfcHoa
  deriving DecidableEq, Repr

/-- The parameters of a source that `Controller::new_source` sets. -/
structure SourceParams where
  connectTo : String
  propertiesFile : String
  deriving DecidableEq, Repr

/-- What does not change while a renderer runs. `sourceError p` is what the constructor of a source
with the properties file `p` throws, if it throws (it may read the file). -/
structure RendererConfig where
  kind : Kind
  /-- the size of the output list -/
  outputs : ℕ
  sourceError : String → Option String

/-! ## The modes of NFC-HOA -/

/-- Number of rows of `laplace_coeffs_double.h`. -/
def laplaceCoeffsRows : ℕ := 211

/-- `_coeffs_begin` of `HoaCoefficients`. -/
def coeffsBegin (order : ℕ) : ℕ := (if order = 0 then 0 else 1) + order * order / 4

structure Mode where
  number : ℕ
  deriving DecidableEq, Repr

/-- The constructor of `Mode`, which throws if `HoaCoefficients` does. -/
def Mode.new (number : ℕ) : Except String Mode :=
  if coeffsBegin number ≥ laplaceCoeffsRows then
    .error ("HoaCoefficients: Order " ++ toString number ++ " is not supported!")
  else .ok ⟨number⟩

structure ModePair where
  first : Option Mode
  second : Mode
  deriving DecidableEq, Repr

/-- The constructor of `ModePair` (`order_is_odd` is true when `order` is even). -/
def ModePair.new (modeNumber order : ℕ) : Except String ModePair := do
  let second ← Mode.new (order - modeNumber)
  let orderIsOdd := order % 2 == 0
  if modeNumber = 0 ∧ orderIsOdd then return ⟨none, second⟩
  else
    let first ← Mode.new (modeNumber - orderIsOdd.toNat)
    return ⟨some first, second⟩

/-- The loop that fills `_mode_pairs`: `count` pairs from `modeNumber` on. -/
def modePairs (order : ℕ) : ℕ → ℕ → Except String (List ModePair)
  | _, 0 => .ok []
  | modeNumber, count + 1 => do
    let pair ← ModePair.new modeNumber order
    let pairs ← modePairs order (modeNumber + 1) count
    return pair :: pairs

/-- The loop that fills `_modes`, over `_mode_pairs` in reverse order; `n` is the number of the
first pair. -/
def modePointers (source : Ptr) : ℕ → List ModePair → List Element
  | _, [] => []
  | n, pair :: pairs =>
    (if pair.first.isSome then [.mode source n false] else []) ++ modePointers source (n + 1) pairs ++
      [.mode source n true]

/-! ## Sources -/

/-- What a source keeps for its disconnection: its input, the elements that it has in the sublists
(`none` if it does not use them) and its mode pairs. -/
structure SourceObject where
  input : Ptr
  elements : Option (List Element)
  modePairs : List (Ptr × ℕ)
  deriving DecidableEq, Repr

namespace RendererConfig

/-- `order` of NFC-HOA. -/
def order (cfg : RendererConfig) : ℕ := cfg.outputs / 2

/-- The number of sublists: one for each output, or for each mode accumulator. -/
def sublists (cfg : RendererConfig) : ℕ :=
  match cfg.kind with
  | .nfcHoa => cfg.order + 1
  | _ => cfg.outputs

/-- `connect()`: what the source keeps, unless it throws. -/
def connect (cfg : RendererConfig) (source input : Ptr) : Except String SourceObject :=
  match cfg.kind with
  | .vbap => .ok { input, elements := none, modePairs := [] }
  | .nfcHoa => do
    let pairs ← modePairs cfg.order 0 (cfg.order / 2 + 1)
    return {
      input
      elements := some (modePointers source 0 pairs)
      modePairs := (List.range pairs.length).map (source, ·) }
  | _ =>
    .ok {
      input
      elements := some ((List.range cfg.outputs).map (.channel source ·))
      modePairs := [] }

/-- The commands that `connect()` pushes. -/
def connectCommands (cfg : RendererConfig) (object : SourceObject) : List (Command F) :=
  (if cfg.kind = .nfcHoa then [.addModePairs object.modePairs] else []) ++
    object.elements.toList.map .addToSublist

/-- The commands that `disconnect()` pushes. -/
def disconnectCommands (cfg : RendererConfig) (object : SourceObject) : List (Command F) :=
  object.elements.toList.map .remFromSublist ++
    (if cfg.kind = .nfcHoa then [.remModePairs object.modePairs] else [])

end RendererConfig

/-! ## The renderer -/

structure Renderer (F : Type) where
  /-- `_source_map` -/
  sourceMap : OrdMap ℕ Ptr
  /-- `_highest_id` -/
  highestId : ℕ
  /-- the next address that is not in use -/
  nextPtr : Ptr
  objects : Ptr → SourceObject
  pending : List (Command F)
  rt : RtState F

/-- A failing assertion or undefined behaviour. -/
inductive Fault
  /-- `assert(source)` in `rem_source` -/
  | assertSource
  /-- `_source_map.erase(_source_map.end())` -/
  | eraseEnd
  /-- `assert(channel >= 0)` in `new_source` and in `get_file_or_port_name` -/
  | assertChannel
  deriving DecidableEq, Repr

namespace Renderer

variable (cfg : RendererConfig)

/-- A new renderer without sources, after `load_reproduction_setup`. -/
def new [FloatOps F] : Renderer F :=
  { sourceMap := .empty
    highestId := 0
    nextPtr := 0
    objects := fun _ => { input := 0, elements := none, modePairs := [] }
    pending := []
    rt :=
      { inputList := []
        sourceList := []
        sublists := List.replicate cfg.sublists []
        modePairList := []
        data := fun _ => .new
        state := .new } }

/-- `_fifo.push(...)`, once for each command. -/
def push (r : Renderer F) (commands : List (Command F)) : Renderer F :=
  { r with pending := r.pending ++ commands }

/-- The realtime state once all pending commands have been executed. -/
def flushed (r : Renderer F) : Except String (RtState F) := executeAll r.rt r.pending

/-- `get_source` -/
def getSource (r : Renderer F) (id : ℕ) : Option Ptr := r.sourceMap.find id

/-- `add_source`: the id of the new source, or what was thrown. -/
def addSource [FloatOps F] (r : Renderer F) (p : SourceParams) : Renderer F × Except String ℕ :=
  -- `_get_new_id`
  let id := r.highestId + 1
  let input := r.nextPtr
  let source := r.nextPtr + 1
  let r := { r with highestId := id, nextPtr := r.nextPtr + 2 }.push [.addInput input]
  match cfg.sourceError p.propertiesFile with
  | some e => (r.push [.remInput input], .error e)
  | none =>
    let r := r.push [.addSource source .new]
    -- `connect` is not within the `try` block
    match cfg.connect source input with
    | .error e => (r, .error e)
    | .ok object =>
      let r := r.push (cfg.connectCommands object)
      ({ r with
        objects := fun p => if p = source then object else r.objects p
        sourceMap := r.sourceMap.insert id source }, .ok id)

/-- `rem_source` -/
def remSource (r : Renderer F) : Option Ptr → Except Fault (Renderer F)
  | none => .error .assertSource
  | some source =>
    match r.sourceMap.entries.find? (·.2 = source) with
    | none => .error .eraseEnd
    | some delinquent =>
      let r := { r with sourceMap := r.sourceMap.erase delinquent.1 }
      let object := r.objects source
      .ok (r.push (cfg.disconnectCommands object ++ [.remSource source, .remInput object.input]))

/-- The loop of `rem_all_sources`; every pass removes an entry, `n` is their number. -/
def remAllLoop : ℕ → Renderer F → Except Fault (Renderer F)
  | 0, r => .ok r
  | n + 1, r =>
    match r.sourceMap.entries with
    | [] => .ok r
    | e :: _ => do
      let r ← r.remSource cfg (some e.2)
      remAllLoop n r

def remAllSources (r : Renderer F) : Except Fault (Renderer F) := do
  let r ← remAllLoop cfg r.sourceMap.entries.length r
  return { r with highestId := 0 }

/-! ## RenderSubscriber -/

/-- The setters for a source: nothing happens if there is no such source. -/
def setSource (r : Renderer F) (id : ℕ) (value : SourceValue F) : Renderer F :=
  match r.getSource id with
  | none => r
  | some source => r.push [.setSource source value]

def setState (r : Renderer F) (value : StateValue F) : Renderer F := r.push [.setState value]

def handle (r : Renderer F) : Update F → Except Fault (Renderer F)
  | .deleteSource id => r.remSource cfg (r.getSource id)
  | .deleteAllSources => r.remAllSources cfg
  | .sourcePosition id position => .ok (r.setSource id (.position position))
  | .sourceOrientation id orientation => .ok (r.setSource id (.orientation orientation))
  | .sourceGain id gain => .ok (r.setSource id (.gain gain))
  | .sourceMute id mute => .ok (r.setSource id (.mute mute))
  | .sourceModel id model => .ok (r.setSource id (.model model))
  | .referencePosition position => .ok (r.setState (.referencePosition position))
  | .referenceOrientation orientation => .ok (r.setState (.referenceOrientation orientation))
  | .referenceOffsetPosition position => .ok (r.setState (.referenceOffsetPosition position))
  | .referenceOffsetOrientation orientation =>
    .ok (r.setState (.referenceOffsetOrientation orientation))
  | .masterVolume volume => .ok (r.setState (.masterVolume volume))
  | .amplitudeReferenceDistance distance => .ok (r.setState (.amplitudeReferenceDistance distance))
  | .processingState state => .ok (r.setState (.processing state))
  -- the renderer ignores names, ports, files, fixed positions and the creation itself
  | .newSource _ | .sourceName _ _ | .sourcePropertiesFile _ _ | .sourcePortName _ _
  | .sourceFileName _ _ | .sourceFileChannel _ _ | .sourcePositionFixed _ _
  | .sourceFileLength _ _ => .ok r

/-! ## Runs -/

inductive Op (F : Type)
  | addSource (p : SourceParams)
  /-- a call of a `RenderSubscriber` member function -/
  | update (u : Update F)
  /-- the realtime thread executes the oldest command -/
  | execute
  deriving DecidableEq, Repr

def step [FloatOps F] (r : Renderer F) : Op F → Option (Renderer F)
  | .addSource p => some (r.addSource cfg p).1
  | .update u => (r.handle cfg u).toOption
  | .execute =>
    match r.pending with
    | [] => none
    | c :: cs => ((c.execute r.rt).map fun rt => { r with pending := cs, rt }).toOption

end Renderer

end Ssr
