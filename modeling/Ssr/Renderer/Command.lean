import Ssr.Scene.Source

/-!
# The realtime side of a renderer (`rendererbase.h`, `apf/rtlist.h`, `apf/shareddata.h`)

`RtState` is what the realtime thread works with: the lists of inputs and sources, the sublists that
connect sources to outputs (or to the mode accumulators of NFC-HOA) and the shared data. `Command`
lists the commands that a renderer pushes into its queue, and `execute` is their `execute()`; a
command throws when an item is not found or when two lists differ in size.

Objects are known by their addresses. A new object gets an address that was never used before.
-/

set_option autoImplicit false

namespace Ssr

variable {F : Type}

/-- The address of an `Input` or a `Source`. -/
abbrev Ptr := ℕ

/-- A pointer in a sublist: to a `SourceChannel`, or to one of the `Mode`s of a `ModePair`. -/
inductive Element
  | channel (source : Ptr) (index : ℕ)
  | mode (source : Ptr) (pair : ℕ) (second : Bool)
  deriving DecidableEq, Repr

/-- The source that owns the element. -/
def Element.source : Element → Ptr
  | .channel source _ => source
  | .mode source _ _ => source

/-- The shared data of a `RendererBase::Source`. -/
structure SourceData (F : Type) where
  position : Position F
  orientation : Orientation F
  gain : F
  mute : Bool
  model : Model
  deriving DecidableEq, Repr

/-- The constructor of `RendererBase::Source`. -/
def SourceData.new [FloatOps F] : SourceData F :=
  { position := .origin, orientation := .zero, gain := FloatOps.ofInt 1, mute := false,
    model := .point }

/-- `RendererBase::State` -/
structure RenderState (F : Type) where
  referencePosition : Position F
  referenceOrientation : Orientation F
  referenceOffsetPosition : Position F
  referenceOffsetOrientation : Orientation F
  masterVolume : F
  processing : Bool
  amplitudeReferenceDistance : F
  deriving DecidableEq, Repr

def RenderState.new [FloatOps F] : RenderState F :=
  { referencePosition := .origin
    referenceOrientation := .zero
    referenceOffsetPosition := .origin
    referenceOffsetOrientation := .zero
    masterVolume := FloatOps.ofInt 1
    processing := true
    amplitudeReferenceDistance := FloatOps.ofInt 3 }

structure RtState (F : Type) where
  inputList : List Ptr
  sourceList : List Ptr
  /-- `sourcechannels` of the outputs, or `mode_pointers` of the mode accumulators -/
  sublists : List (List Element)
  /-- `_mode_pair_list`: each pair by its source and its number -/
  modePairList : List (Ptr × ℕ)
  data : Ptr → SourceData F
  state : RenderState F

/-- An assignment to one of the `SharedData` of a source. -/
inductive SourceValue (F : Type)
  | position (position : Position F)
  | orientation (orientation : Orientation F)
  | gain (gain : F)
  | mute (mute : Bool)
  | model (model : Model)
  deriving DecidableEq, Repr

def SourceValue.assign (d : SourceData F) : SourceValue F → SourceData F
  | .position p => { d with position := p }
  | .orientation o => { d with orientation := o }
  | .gain g => { d with gain := g }
  | .mute b => { d with mute := b }
  | .model m => { d with model := m }

/-- An assignment to one of the `SharedData` of `state`. -/
inductive StateValue (F : Type)
  | referencePosition (position : Position F)
  | referenceOrientation (orientation : Orientation F)
  | referenceOffsetPosition (position : Position F)
  | referenceOffsetOrientation (orientation : Orientation F)
  | masterVolume (volume : F)
  | processing (state : Bool)
  | amplitudeReferenceDistance (distance : F)
  deriving DecidableEq, Repr

def StateValue.assign (s : RenderState F) : StateValue F → RenderState F
  | .referencePosition p => { s with referencePosition := p }
  | .referenceOrientation o => { s with referenceOrientation := o }
  | .referenceOffsetPosition p => { s with referenceOffsetPosition := p }
  | .referenceOffsetOrientation o => { s with referenceOffsetOrientation := o }
  | .masterVolume v => { s with masterVolume := v }
  | .processing b => { s with processing := b }
  | .amplitudeReferenceDistance d => { s with amplitudeReferenceDistance := d }

inductive Command (F : Type)
  | addInput (input : Ptr)
  | remInput (input : Ptr)
  /-- the new source is passed with the data that its constructor has set -/
  | addSource (source : Ptr) (data : SourceData F)
  | remSource (source : Ptr)
  | addToSublist (elements : List Element)
  | remFromSublist (elements : List Element)
  | addModePairs (pairs : List (Ptr × ℕ))
  | remModePairs (pairs : List (Ptr × ℕ))
  | setSource (source : Ptr) (value : SourceValue F)
  | setState (value : StateValue F)
  deriving DecidableEq, Repr

/-! ## Lists -/

section
variable {α : Type} [DecidableEq α]

/-- `RtList::RemCommand::execute` -/
def remExecute (list : List α) : List α → Except String (List α)
  | [] => .ok list
  | i :: delinquents =>
    if i ∈ list then remExecute (list.erase i) delinquents
    else .error "RemCommand: Item not found!"

/-- `distribute_list`: each target gets one more element. -/
def distributeList (source : List α) (target : List (List α)) : Except String (List (List α)) :=
  if source.length ≠ target.length then .error "distribute_list: Different sizes!"
  else .ok (List.zipWith (fun x member => member ++ [x]) source target)

/-- The loop of `undistribute_list`. -/
def undistributeLoop : List α → List (List α) → Except String (List (List α))
  | x :: source, member :: target =>
    if x ∈ member then (undistributeLoop source target).map (member.erase x :: ·)
    else .error "undistribute_list(): Element not found!"
  | _, target => .ok target

def undistributeList (source : List α) (target : List (List α)) : Except String (List (List α)) :=
  if source.length ≠ target.length then .error "undistribute_list(): Different sizes!"
  else undistributeLoop source target

end

/-! ## Execution -/

def Command.execute (rt : RtState F) : Command F → Except String (RtState F)
  | .addInput input => .ok { rt with inputList := rt.inputList ++ [input] }
  | .remInput input => do
    let inputList ← remExecute rt.inputList [input]
    return { rt with inputList }
  | .addSource source data =>
    .ok { rt with
      sourceList := rt.sourceList ++ [source]
      data := fun p => if p = source then data else rt.data p }
  | .remSource source => do
    let sourceList ← remExecute rt.sourceList [source]
    return { rt with sourceList }
  | .addToSublist elements => do
    let sublists ← distributeList elements rt.sublists
    return { rt with sublists }
  | .remFromSublist elements => do
    let sublists ← undistributeList elements rt.sublists
    return { rt with sublists }
  | .addModePairs pairs => .ok { rt with modePairList := rt.modePairList ++ pairs }
  | .remModePairs pairs => do
    let modePairList ← remExecute rt.modePairList pairs
    return { rt with modePairList }
  | .setSource source value =>
    .ok { rt with data := fun p => if p = source then value.assign (rt.data p) else rt.data p }
  | .setState value => .ok { rt with state := value.assign rt.state }

/-- Execute all commands, oldest first. -/
def executeAll (rt : RtState F) : List (Command F) → Except String (RtState F)
  | [] => .ok rt
  | c :: cs => do
    let rt' ← c.execute rt
    executeAll rt' cs

end Ssr
