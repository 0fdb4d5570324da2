import Ssr.Scene.Geometry
import Ssr.Xml.Node

/-!
# Loudspeaker setups (`loudspeakerrenderer.h`)

The elements of a reproduction setup create loudspeakers, each of which is connected to the output
port with the number `nextLoudspeakerChannel`. An exception leaves the loudspeakers that have been
added before, so that every function returns the renderer together with the reason why it stopped.
-/

set_option autoImplicit false

namespace Ssr

open Apf

/-- `Loudspeaker::model_t` -/
inductive LoudspeakerModel
  | unknown
  | normal
  | subwoofer
  deriving DecidableEq, Repr

/-- `LoudspeakerRenderer::Output` and its `Params`. -/
structure LoudspeakerOutput (T : Type) where
  position : Position T
  orientation : Orientation T
  model : LoudspeakerModel
  weight : T
  delay : T
  /-- the parameter `connect_to`, if it is set -/
  connectTo : Option String

/-- `INT_MAX` -/
def intMax : ℤ := 2147483647

/-- What does not change while the setup is loaded. -/
structure LoudspeakerConfig where
  reproductionSetup : String
  xmlSchema : String
  systemOutputPrefix : String

variable {T : Type} [DivisionRing T] [LinearOrder T] [CMath T] [FloatOps T]

/-! ## What the elements say -/

namespace Node

/-- `child(name)` -/
def child (node : Node) (name : String) : Option Node := node.children.find? (·.name = name)

mutual
/-- `eval_xpath("//parent/*")` -/
def evalXpathAny (parent : String) : Node → List Node
  | element name _ children => evalAnyChildren parent (name = parent) children
  | text _ => []

def evalAnyChildren (parent : String) (inParent : Bool) : List Node → List Node
  | [] => []
  | n :: ns =>
    (if inParent && n.isElement then [n] else []) ++ evalXpathAny parent n ++
      evalAnyChildren parent inParent ns
end

end Node

namespace LoudspeakerRenderer

/-- `_get_position` -/
def getPosition (node : Option Node) : Option (Position T) := do
  let i ← (← node).child "position"
  let x ← FloatOps.S2A (i.getAttribute "x")
  let y ← FloatOps.S2A (i.getAttribute "y")
  return ⟨x, y⟩

/-- `_get_orientation` and `_get_angle` -/
def getAzimuth (name : String) (node : Option Node) : Option (Orientation T) := do
  let i ← (← node).child name
  let azimuth ← FloatOps.S2A (i.getAttribute "azimuth")
  return ⟨azimuth⟩

def getOrientation (node : Option Node) : Option (Orientation T) := getAzimuth "orientation" node
def getAngle (node : Option Node) : Option (Orientation T) := getAzimuth "angle" node

/-- A loudspeaker of an array. -/
def newOutput (point : DirectionalPoint T) : LoudspeakerOutput T :=
  { position := point.position, orientation := point.orientation, model := .normal, weight := 1,
    delay := 0, connectTo := none }

/-- `_load_loudspeaker` before the loudspeaker is added. -/
def readLoudspeaker (node : Node) : Except String (LoudspeakerOutput T) :=
  match getPosition (T := T) (some node), getOrientation (T := T) (some node) with
  | none, _ => .error "No position found for the loudspeaker! Not loaded!"
  | some _, none => .error "No orientation found for the loudspeaker! Not loaded!"
  | some position, some orientation =>
    let modelStr := node.getAttribute "model"
    let delay : T := (FloatOps.S2A (node.getAttribute "delay")).getD 0
    .ok {
      position
      orientation
      model :=
        if modelStr = "normal" then .normal
        else if modelStr = "subwoofer" then .subwoofer
        else .unknown
      weight := (FloatOps.S2A (node.getAttribute "weight")).getD 1
      delay := if delay < 0 then 0 else delay
      connectTo := none }

/-- The points of the loop in `_load_linear_array`. -/
def linearPoints (increment : DirectionalPoint T) : ℕ → DirectionalPoint T → List (DirectionalPoint T)
  | 0, _ => []
  | n + 1, current => current :: linearPoints increment n (current.add increment)

/-- The second or the last loudspeaker, with the orientation of the first one by default. -/
def orFirst (first : DirectionalPoint T) (position : Position T) (orientation : Option (Orientation T)) :
    DirectionalPoint T :=
  ⟨position, orientation.getD first.orientation⟩

/-- `_load_linear_array` before its loudspeakers are added. -/
def readLinearArray (node : Node) : Except String (List (LoudspeakerOutput T)) :=
  match S2AInt (node.getAttribute "number") with
  | none => .error "Invalid number of loudspeakers! Array not loaded."
  | some number =>
    if number < 2 then .error "Number of loudspeakers in an array must be at least 2!"
    else match getPosition (node.child "first"), getOrientation (node.child "first") with
    | none, _ => .error "No position found for first loudspeaker! Array not loaded!"
    | some _, none => .error "No orientation found for first loudspeaker! Array not loaded!"
    | some firstPos, some firstDir =>
      let first : DirectionalPoint T := ⟨firstPos, firstDir⟩
      let points (increment : DirectionalPoint T) :=
        .ok ((linearPoints increment number.toInt.toNat first).map newOutput)
      match getPosition (node.child "second"), getPosition (node.child "last") with
      | some second, none =>
        points ((orFirst first second (getOrientation (node.child "second"))).sub first)
      | none, some last =>
        points (((orFirst first last (getOrientation (node.child "last"))).sub first).div
          ((number.toInt - 1 : ℤ) : T))
      | _, _ =>
        .error ("Either \"second\" or \"last\" has to be present! (But not both!) " ++
          "Array not loaded.")

/-- `_load_circular_array` before its loudspeakers are added. -/
def readCircularArray (node : Node) : Except String (List (LoudspeakerOutput T)) :=
  match S2AInt (node.getAttribute "number") with
  | none => .error "Invalid number of loudspeakers! Array not loaded."
  | some number =>
    if number < 2 then .error "Invalid number of loudspeakers! Array not loaded."
    else match getPosition (node.child "first"), getOrientation (node.child "first") with
    | none, _ => .error "No position found for first loudspeaker! Array not loaded!"
    | some _, none => .error "No orientation found for first loudspeaker! Array not loaded!"
    | some firstPos, some firstDir =>
      let centerPos : Position T := (getPosition (node.child "center")).getD ⟨0, 0⟩
      let radius : DirectionalPoint T := ⟨firstPos.sub centerPos, firstDir⟩
      let center : DirectionalPoint T := ⟨centerPos, ⟨0⟩⟩
      let angleIncrement : T :=
        match getAngle (T := T) (node.child "second"), getAngle (T := T) (node.child "last") with
        | some second, _ => second.azimuth
        | none, some last => last.azimuth / ((number.toInt - 1 : ℤ) : T)
        | none, none => ((360 : ℕ) : T) / (number.toInt : T)
      .ok ((List.range number.toInt.toNat).map fun i =>
        newOutput ((radius.rotate (i * angleIncrement)).add center))

/-- The number of channels that a `skip` element skips. -/
def skipNumber (node : Node) : ℕ :=
  match S2AInt (node.getAttribute "number") with
  | none => 1
  | some number => if number < 1 then 1 else number.toInt.toNat

end LoudspeakerRenderer

/-! ## Loading -/

/-- Why loading has stopped before its end. -/
inductive Stop
  | threw (message : String)
  /-- `++_next_loudspeaker_channel` beyond `INT_MAX` -/
  | overflow
  deriving DecidableEq, Repr

structure LoudspeakerRenderer (T : Type) where
  /-- an `int` -/
  nextLoudspeakerChannel : ℤ
  /-- the output list -/
  outputs : List (LoudspeakerOutput T)

namespace LoudspeakerRenderer

variable (cfg : LoudspeakerConfig)

def new : LoudspeakerRenderer T := { nextLoudspeakerChannel := 1, outputs := [] }

/-- A loop that ends where its body stops. -/
def forEach {α : Type} (body : LoudspeakerRenderer T → α → LoudspeakerRenderer T × Option Stop) :
    LoudspeakerRenderer T → List α → LoudspeakerRenderer T × Option Stop
  | r, [] => (r, none)
  | r, a :: as =>
    match body r a with
    | (r, none) => forEach body r as
    | (r, some stop) => (r, some stop)

/-- `++_next_loudspeaker_channel` -/
def nextChannel (r : LoudspeakerRenderer T) : LoudspeakerRenderer T × Option Stop :=
  if r.nextLoudspeakerChannel < intMax then
    ({ r with nextLoudspeakerChannel := r.nextLoudspeakerChannel + 1 }, none)
  else (r, some .overflow)

/-- The port that `_set_connection` connects a loudspeaker to. -/
def connection (channel : ℤ) : Option String :=
  if cfg.systemOutputPrefix ≠ "" then some (cfg.systemOutputPrefix ++ toString channel) else none

/-- `_set_connection` and `add`. -/
def addOutput (r : LoudspeakerRenderer T) (params : LoudspeakerOutput T) :
    LoudspeakerRenderer T × Option Stop :=
  let params := { params with connectTo := connection cfg r.nextLoudspeakerChannel }
  match r.nextChannel with
  | (r, none) => ({ r with outputs := r.outputs ++ [params] }, none)
  | (r, some stop) => (r, some stop)

def addOutputs (r : LoudspeakerRenderer T) :
    Except String (List (LoudspeakerOutput T)) → LoudspeakerRenderer T × Option Stop
  | .ok params => forEach (addOutput cfg) r params
  | .error message => (r, some (.threw message))

def loadLoudspeaker (r : LoudspeakerRenderer T) (node : Node) :=
  r.addOutputs cfg ((readLoudspeaker node).map ([·]))

def loadLinearArray (r : LoudspeakerRenderer T) (node : Node) :=
  r.addOutputs cfg (readLinearArray node)

def loadCircularArray (r : LoudspeakerRenderer T) (node : Node) :=
  r.addOutputs cfg (readCircularArray node)

/-- The loop over the elements of the setup. -/
def loadElement (r : LoudspeakerRenderer T) (node : Node) : LoudspeakerRenderer T × Option Stop :=
  if node.name = "loudspeaker" then r.loadLoudspeaker cfg node
  else if node.name = "linear_array" then r.loadLinearArray cfg node
  else if node.name = "circular_array" then r.loadCircularArray cfg node
  else if node.name = "skip" then
    forEach (fun r _ => r.nextChannel) r (List.range (skipNumber node))
  else (r, none)

/-- `load_reproduction_setup`; `setupFile` is the document, if it can be loaded, and `valid` says
whether it is valid. -/
def loadReproductionSetup (setupFile : Option Node) (valid : Bool) :
    LoudspeakerRenderer T × Option Stop :=
  if cfg.reproductionSetup = "" then (new, some (.threw "No reproduction_setup specified!"))
  else match setupFile with
  | none =>
    (new, some (.threw ("Unable to load reproduction setup file \"" ++ cfg.reproductionSetup ++
      "\"!")))
  | some doc =>
    if cfg.xmlSchema ≠ "" && !valid then
      (new, some (.threw ("Error validating \"" ++ cfg.reproductionSetup ++
        "\" with schema file \"" ++ cfg.xmlSchema ++ "\"!")))
    else match doc.evalXpathAny "reproduction_setup" with
    | [] => (new, some (.threw "No <reproduction_setup> section found in XML file!"))
    | elements =>
      match forEach (loadElement cfg) new elements with
      | (r, none) =>
        if r.nextLoudspeakerChannel < 2 then
          (r, some (.threw ("No loudspeakers found in the file \"" ++ cfg.reproductionSetup ++
            "\"!")))
        else (r, none)
      | (r, some stop) => (r, some stop)

end LoudspeakerRenderer

end Ssr
