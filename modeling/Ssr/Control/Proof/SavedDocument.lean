import Ssr.Control.SaveScene
import Ssr.Path.Proof.Resolve
import Ssr.Xml.Proof.Values

/-!
# The document of a saved scene

`validAsdf_iff` says when the schema accepts the document that `save_scene_as_XML` writes, and
`readSource_addSourceNode` what `load_scene` reads from the nodes of its sources.
-/

set_option autoImplicit false

namespace Ssr

open Lib Apf PosixPathTools Schema

variable {F : Type} [FloatOps F]

/-! ## What the schema accepts -/

/-- The schema accepts the model, the numbers and the channel of a source. -/
def Source.Accepted (s : Source F) : Prop :=
  (s.model = .point ∨ s.model = .plane ∨ s.model = .directional) ∧
  decimal (FloatOps.A2S s.position.x) = true ∧ decimal (FloatOps.A2S s.position.y) = true ∧
  decimal (FloatOps.A2S s.orientation.azimuth) = true ∧
  float (FloatOps.A2S (FloatOps.linear2dB s.gain)) = true ∧
  (s.audioFileName ≠ "" → 0 < s.audioFileChannel.toInt)

/-- The schema accepts volume, reference and sources of a scene. -/
def Scene.Accepted (nodeContent : String → String) (s : Scene F) : Prop :=
  float (addMasterVolume nodeContent s.masterVolume).getContent = true ∧
  decimal (FloatOps.A2S s.referencePosition.x) = true ∧
  decimal (FloatOps.A2S s.referencePosition.y) = true ∧
  decimal (FloatOps.A2S s.referenceOrientation.azimuth) = true ∧
  ∀ source ∈ s.getSources, source.Accepted

theorem sourceModel_iff (m : Model) :
    sourceModel (A2SModel m) = true ↔ m = .point ∨ m = .plane ∨ m = .directional := by
  cases m <;> decide

theorem boolean_A2SBool (b : Bool) : boolean (A2SBool b) = true := by
  cases b <;> decide

theorem validPosition_iff (position : Position F) (fixed : Bool) :
    validPosition (addPosition position fixed) = true ↔
      decimal (FloatOps.A2S position.x) = true ∧ decimal (FloatOps.A2S position.y) = true := by
  have hbool := boolean_A2SBool fixed
  cases fixed <;> simp [validPosition, addPosition, validAttributes, Node.attributes, Node.children,
    hbool]

theorem validOrientation_iff (orientation : Orientation F) :
    validOrientation (addOrientation orientation) = true ↔
      decimal (FloatOps.A2S orientation.azimuth) = true := by
  simp [validOrientation, addOrientation, validAttributes, Node.attributes, Node.children]

theorem validFile_iff (nodeContent : String → String) (name : String) (channel : Int32) :
    validFile (addAudioFileName nodeContent name channel) = true ↔ 0 < channel.toInt := by
  have hchildren : (addAudioFileName nodeContent name channel).children.all (!·.isElement) = true := by
    by_cases hname : name = "" <;> simp [addAudioFileName, newChild, hname, Node.children,
      Node.isElement]
  unfold validFile validSimple
  rw [hchildren, Bool.and_true, token, Bool.and_true]
  by_cases hone : channel = 1
  · subst hone
    simp [addAudioFileName, newChild, validAttributes, Node.attributes]
  · simp [addAudioFileName, newChild, hone, validAttributes, Node.attributes,
      positiveInteger_A2SInt]

section
variable (nodeContent : String → String) (other : OtherRules) (cwd fileName : String)

theorem validSource_attributes (s : Source F) :
    validAttributes
      [⟨"id", other.id, false⟩, ⟨"name", token, false⟩, ⟨"properties_file", token, false⟩,
        ⟨"volume", float, false⟩, ⟨"model", sourceModel, false⟩, ⟨"mute", boolean, false⟩,
        ⟨"doppler_effect", boolean, false⟩]
      true (addSourceNode nodeContent cwd fileName s) = true ↔
      (s.model = .point ∨ s.model = .plane ∨ s.model = .directional) ∧
        float (FloatOps.A2S (FloatOps.linear2dB s.gain)) = true := by
  rw [← sourceModel_iff]
  by_cases hp : s.propertiesFile = "" <;> simp [addSourceNode, hp, validAttributes, Node.attributes,
    token, boolean_A2SBool]

theorem validPlace_iff (position : Position F) (fixed : Bool) (orientation : Orientation F) :
    validPlace other [addPosition position fixed, addOrientation orientation] = true ↔
      (decimal (FloatOps.A2S position.x) = true ∧ decimal (FloatOps.A2S position.y) = true) ∧
        decimal (FloatOps.A2S orientation.azimuth) = true := by
  rw [← validPosition_iff position fixed, ← validOrientation_iff orientation]
  have hp : (addPosition position fixed).name = "position" := rfl
  have ho : (addOrientation orientation).name = "orientation" := rfl
  simp [validPlace, optionalElement, validRest, hp, ho]

theorem validSource_iff (s : Source F) :
    validSource other (addSourceNode nodeContent cwd fileName s) = true ↔ s.Accepted := by
  have hplace := validPlace_iff other s.position s.fixedPosition s.orientation
  have hcontent : elementContent (addSourceNode nodeContent cwd fileName s) =
      some (addSourceNode nodeContent cwd fileName s).children := by
    by_cases ha : s.audioFileName = "" <;> simp [elementContent, addSourceNode, ha, Node.children,
      Node.isElement, addPosition, addOrientation, addAudioFileName, newChild]
  unfold validSource Source.Accepted
  rw [hcontent, Bool.and_eq_true, validSource_attributes]
  have hp : (addPosition s.position s.fixedPosition).name = "position" := rfl
  by_cases ha : s.audioFileName = ""
  · have hchildren : (addSourceNode nodeContent cwd fileName s).children =
        [addPosition s.position s.fixedPosition, addOrientation s.orientation] := by
      simp [addSourceNode, ha, Node.children]
    rw [hchildren]
    simp only [hp, String.reduceEq, if_false, hplace]
    constructor
    · rintro ⟨⟨hm, hg⟩, ⟨hx, hy⟩, ho⟩
      exact ⟨hm, hx, hy, ho, hg, fun hne => absurd ha hne⟩
    · rintro ⟨hm, hx, hy, ho, hg, -⟩
      exact ⟨⟨hm, hg⟩, ⟨hx, hy⟩, ho⟩
  · have hchildren : (addSourceNode nodeContent cwd fileName s).children =
        [addAudioFileName nodeContent (makePathRelativeToFile cwd s.audioFileName fileName)
          s.audioFileChannel, addPosition s.position s.fixedPosition,
          addOrientation s.orientation] := by
      simp [addSourceNode, ha, Node.children]
    have hfile : ∀ name, (addAudioFileName nodeContent name s.audioFileChannel).name = "file" :=
      fun _ => rfl
    rw [hchildren]
    simp only [hfile, if_true, Bool.and_eq_true, validFile_iff, hplace]
    constructor
    · rintro ⟨⟨hm, hg⟩, hc, ⟨hx, hy⟩, ho⟩
      exact ⟨hm, hx, hy, ho, hg, fun _ => hc⟩
    · rintro ⟨hm, hx, hy, ho, hg, hc⟩
      exact ⟨⟨hm, hg⟩, hc ha, ⟨hx, hy⟩, ho⟩

theorem validReference_iff (s : Scene F) :
    validReference other (addReference s) = true ↔
      (decimal (FloatOps.A2S s.referencePosition.x) = true ∧
        decimal (FloatOps.A2S s.referencePosition.y) = true) ∧
        decimal (FloatOps.A2S s.referenceOrientation.azimuth) = true := by
  rw [← validPosition_iff s.referencePosition false, ← validOrientation_iff s.referenceOrientation]
  have hp : (addPosition s.referencePosition false).name = "position" := rfl
  have ho : (addOrientation s.referenceOrientation).name = "orientation" := rfl
  have hcontent : elementContent (addReference s) =
      some [addPosition s.referencePosition false, addOrientation s.referenceOrientation] := rfl
  have hattr : validAttributes [⟨"id", other.id, false⟩, ⟨"name", token, false⟩] false
      (addReference s) = true := rfl
  simp [validReference, hcontent, hattr, hp, ho]

theorem validVolume_iff (volume : F) :
    validSimple float [] (addMasterVolume nodeContent volume) = true ↔
      float (addMasterVolume nodeContent volume).getContent = true := by
  have hchildren : (addMasterVolume nodeContent volume).children.all (!·.isElement) = true := by
    by_cases hv : FloatOps.A2S (FloatOps.linear2dB volume) = "" <;> simp [addMasterVolume, newChild,
      hv, Node.children, Node.isElement]
  have hattr : validAttributes [] false (addMasterVolume nodeContent volume) = true := rfl
  rw [validSimple, hchildren, hattr, Bool.and_self, Bool.true_and]

theorem validSceneSetup_iff (s : Scene F) :
    validSceneSetup other (.element "scene_setup" [] ([addMasterVolume nodeContent s.masterVolume,
      addReference s] ++ s.getSources.map (addSourceNode nodeContent cwd fileName))) = true ↔
        s.Accepted nodeContent := by
  have hcontent : elementContent (.element "scene_setup" []
      ([addMasterVolume nodeContent s.masterVolume, addReference s] ++
        s.getSources.map (addSourceNode nodeContent cwd fileName))) =
      some ([addMasterVolume nodeContent s.masterVolume, addReference s] ++
        s.getSources.map (addSourceNode nodeContent cwd fileName)) := by
    simp [elementContent, Node.children, addMasterVolume, addReference, newChild, addSourceNode,
      Node.isElement]
  have hsources : ((s.getSources.map (addSourceNode nodeContent cwd fileName)).all fun n =>
      n.name = "source" && validSource other n) = true ↔
        ∀ source ∈ s.getSources, source.Accepted := by
    simp only [List.all_map, List.all_eq_true, Function.comp, Bool.and_eq_true, validSource_iff]
    exact forall₂_congr fun source _ => and_iff_right rfl
  have hv : (addMasterVolume nodeContent s.masterVolume).name = "volume" := rfl
  have hr : (addReference s).name = "reference" := rfl
  have hattr : ∀ ns, validAttributes [] false (.element "scene_setup" [] ns) = true := fun _ => rfl
  unfold validSceneSetup Scene.Accepted
  rw [hcontent, hattr, Bool.true_and]
  simp only [List.cons_append, List.nil_append, optionalElement, hv, hr, String.reduceEq, if_true,
    if_false, Bool.and_eq_true, validVolume_iff, validReference_iff, hsources, and_assoc]

/-- **What the schema accepts** of the documents that are written. -/
theorem validAsdf_iff (s : Scene F) :
    validAsdf other (saveSceneAsXml nodeContent cwd fileName s) = true ↔
      s.Accepted nodeContent := by
  rw [← validSceneSetup_iff nodeContent other cwd fileName]
  simp [validAsdf, saveSceneAsXml, Node.name, Node.children, Node.isElement, elementContent,
    validAttributes, Node.attributes]

/-! ## What is read from it -/

theorem evalXpath_addSourceNode (child : String) (s : Source F) :
    (addSourceNode nodeContent cwd fileName s).evalXpath "scene_setup" child = [] := by
  by_cases ha : s.audioFileName = "" <;> by_cases hp : makePathRelativeToFile cwd s.audioFileName
    fileName = "" <;> simp [addSourceNode, ha, hp, addAudioFileName, newChild, addPosition,
      addOrientation, Node.evalXpath, Node.evalChildren]

theorem evalChildren_sources (child : String) (sources : List (Source F)) :
    Node.evalChildren "scene_setup" child true (sources.map (addSourceNode nodeContent cwd fileName)) =
      if child = "source" then sources.map (addSourceNode nodeContent cwd fileName) else [] := by
  induction sources with
  | nil => simp [Node.evalChildren]
  | cons s sources ih =>
    have hname : (addSourceNode nodeContent cwd fileName s).name = "source" := rfl
    have helement : (addSourceNode nodeContent cwd fileName s).isElement = true := rfl
    rw [List.map_cons, Node.evalChildren, ih, evalXpath_addSourceNode, hname, helement]
    by_cases hc : child = "source"
    · simp [hc]
    · simp [hc, Ne.symm hc]

/-- The elements `child` of the scene. -/
theorem evalXpath_saveSceneAsXml (child : String) (s : Scene F) :
    (saveSceneAsXml nodeContent cwd fileName s).evalXpath "scene_setup" child =
      (if child = "volume" then [addMasterVolume nodeContent s.masterVolume] else []) ++
      (if child = "reference" then [addReference s] else []) ++
      if child = "source" then s.getSources.map (addSourceNode nodeContent cwd fileName) else [] := by
  have hv : (addMasterVolume nodeContent s.masterVolume).evalXpath "scene_setup" child = [] := by
    by_cases hv : FloatOps.A2S (FloatOps.linear2dB s.masterVolume) = "" <;> simp [addMasterVolume,
      newChild, hv, Node.evalXpath, Node.evalChildren]
  have hr : (addReference s).evalXpath "scene_setup" child = [] := by
    simp [addReference, addPosition, addOrientation, Node.evalXpath, Node.evalChildren]
  have hnv : (addMasterVolume nodeContent s.masterVolume).name = "volume" := rfl
  have hnr : (addReference s).name = "reference" := rfl
  have hev : (addMasterVolume nodeContent s.masterVolume).isElement = true := rfl
  have her : (addReference s).isElement = true := rfl
  simp [saveSceneAsXml, Node.evalXpath, Node.evalChildren, evalChildren_sources, hv, hr, hnv, hnr,
    hev, her, eq_comm]

/-- What the schema accepts as an `xs:decimal` is read as a number. -/
def ReadsDecimals (F : Type) [FloatOps F] : Prop :=
  ∀ x : F, decimal (FloatOps.A2S x) = true → (FloatOps.S2A (FloatOps.A2S x) : Option F).isSome

theorem getPosition_eq (hread : ReadsDecimals F) {node : Node} {position : Position F} {fixed : Bool}
    (hnode : node.children.find? (·.name = "position") = some (addPosition position fixed))
    (h : decimal (FloatOps.A2S position.x) = true ∧ decimal (FloatOps.A2S position.y) = true) :
    ∃ position', getPosition node = some ((position', fixed) : Position F × Bool) := by
  obtain ⟨x, hx⟩ := Option.isSome_iff_exists.1 (hread _ h.1)
  obtain ⟨y, hy⟩ := Option.isSome_iff_exists.1 (hread _ h.2)
  have hax : (addPosition position fixed).getAttribute "x" = FloatOps.A2S position.x := rfl
  have hay : (addPosition position fixed).getAttribute "y" = FloatOps.A2S position.y := rfl
  have hfixed : (S2ABool ((addPosition position fixed).getAttribute "fixed")).getD false = fixed := by
    cases fixed with
    | false => rfl
    | true =>
      have hattr : (addPosition position true).getAttribute "fixed" = A2SBool true := rfl
      rw [hattr, S2ABool_A2SBool, Option.getD_some]
  exact ⟨⟨x, y⟩, by simp only [getPosition, hnode, hax, hay, hx, hy, hfixed]⟩

theorem getOrientation_eq (hread : ReadsDecimals F) {node : Node} {orientation : Orientation F}
    (hnode : node.children.find? (·.name = "orientation") = some (addOrientation orientation))
    (h : decimal (FloatOps.A2S orientation.azimuth) = true) :
    ∃ orientation' : Orientation F, getOrientation node = some orientation' := by
  obtain ⟨azimuth, ha⟩ := Option.isSome_iff_exists.1 (hread _ h)
  have hattr : (addOrientation orientation).getAttribute "azimuth" =
      FloatOps.A2S orientation.azimuth := rfl
  exact ⟨⟨azimuth⟩, by simp only [getOrientation, hnode, hattr, ha, Option.map_some]⟩

/-- The name of the audio file that `load_scene` reads. -/
def loadedAudioFile (nodeContent : String → String) (cwd fileName : String) (s : Source F) : String :=
  if s.audioFileName = "" then ""
  else makePathRelativeToCurrentDir cwd
    (nodeContent (makePathRelativeToFile cwd s.audioFileName fileName)) fileName

theorem makePathRelativeToFile_ne_empty {path : String} (h : path ≠ "") :
    makePathRelativeToFile cwd path fileName ≠ "" := by
  unfold makePathRelativeToFile
  split
  · simp only
    split
    · exact untokenize_ne_empty _
    · exact untokenize_ne_empty _
  · exact h

theorem getFileOrPortName_addSourceNode (s : Source F)
    (h : s.audioFileName ≠ "" → 0 < s.audioFileChannel.toInt) :
    getFileOrPortName (addSourceNode nodeContent cwd fileName s) =
      .ok (if s.audioFileName = "" then ("", 0)
        else (nodeContent (makePathRelativeToFile cwd s.audioFileName fileName),
          s.audioFileChannel)) := by
  have hp : (addPosition s.position s.fixedPosition).name = "position" := rfl
  have ho : (addOrientation s.orientation).name = "orientation" := rfl
  by_cases ha : s.audioFileName = ""
  · have hfind : (addSourceNode nodeContent cwd fileName s).children.find?
        (fun i => i.name = "file" || i.name = "port") = none := by
      simp [addSourceNode, Node.children, ha, hp, ho]
    rw [getFileOrPortName, hfind, if_pos ha]
  · have hne := makePathRelativeToFile_ne_empty cwd fileName ha
    have hfind : (addSourceNode nodeContent cwd fileName s).children.find?
        (fun i => i.name = "file" || i.name = "port") = some (addAudioFileName nodeContent
          (makePathRelativeToFile cwd s.audioFileName fileName) s.audioFileChannel) := by
      simp [addSourceNode, Node.children, ha, addAudioFileName, newChild, Node.name]
    have hname : ∀ name, (addAudioFileName nodeContent name s.audioFileChannel).name = "file" :=
      fun _ => rfl
    have hchannel : ∀ name, (S2AInt ((addAudioFileName nodeContent name
        s.audioFileChannel).getAttribute "channel")).getD 1 = s.audioFileChannel := by
      intro name
      by_cases hone : s.audioFileChannel = 1
      · rw [hone]
        rfl
      · have hattr : (addAudioFileName nodeContent name s.audioFileChannel).getAttribute "channel" =
            A2SInt s.audioFileChannel := by
          simp [addAudioFileName, newChild, hone, Node.getAttribute, Node.attributes]
        rw [hattr, S2AInt_A2SInt, Option.getD_some]
    have hcontent : (addAudioFileName nodeContent (makePathRelativeToFile cwd s.audioFileName fileName)
        s.audioFileChannel).getContent =
          nodeContent (makePathRelativeToFile cwd s.audioFileName fileName) := by
      simp [addAudioFileName, newChild, hne, Node.getContent, Node.getContents]
    have hpos := h ha
    simp only [getFileOrPortName, hfind, hname, if_true, hchannel, hcontent, ha, if_false]
    rw [if_neg (by omega)]

/-- What `load_scene` knows of a source when it calls `new_source`. -/
structure ReadAs (nodeContent : String → String) (cwd fileName : String) (s : Source F)
    (a : SourceArgs F) : Prop where
  name : a.name = s.name
  model : a.model = s.model
  fileOrPortName : a.fileOrPortName = loadedAudioFile nodeContent cwd fileName s
  channel : a.channel = if s.audioFileName = "" then 0 else s.audioFileChannel
  positionFixed : a.positionFixed = s.fixedPosition
  muted : a.muted = s.mute
  propertiesFile : a.propertiesFile = makePathRelativeToCurrentDir cwd s.propertiesFile fileName

theorem S2AModel_A2SModel {m : Model} (h : m = .point ∨ m = .plane ∨ m = .directional) :
    S2AModel (A2SModel m) = some m := by
  rcases h with rfl | rfl | rfl <;> decide

/-- **Reading a source** that the schema accepts. -/
theorem readSource_addSourceNode (hread : ReadsDecimals F) (cfg : Config F) (env : Environment F)
    {s : Source F} (h : s.Accepted) :
    ∃ a, readSource cfg env fileName (addSourceNode nodeContent env.cwd fileName s) = .ok (some a) ∧
      ReadAs nodeContent env.cwd fileName s a := by
  obtain ⟨hmodel, hx, hy, ho, -, hc⟩ := h
  have hfindp : (addSourceNode nodeContent env.cwd fileName s).children.find?
      (·.name = "position") = some (addPosition s.position s.fixedPosition) := by
    by_cases ha : s.audioFileName = "" <;> simp [addSourceNode, Node.children, ha, addAudioFileName,
      newChild, addPosition, Node.name]
  have hfindo : (addSourceNode nodeContent env.cwd fileName s).children.find?
      (·.name = "orientation") = some (addOrientation s.orientation) := by
    by_cases ha : s.audioFileName = "" <;> simp [addSourceNode, Node.children, ha, addAudioFileName,
      newChild, addPosition, addOrientation, Node.name]
  obtain ⟨position, hposition⟩ := getPosition_eq hread hfindp ⟨hx, hy⟩
  obtain ⟨orientation, horientation⟩ := getOrientation_eq hread hfindo ho
  have hfile := getFileOrPortName_addSourceNode nodeContent env.cwd fileName s hc
  have hname : (addSourceNode nodeContent env.cwd fileName s).getAttribute "name" = s.name := rfl
  have hmute : (S2ABool ((addSourceNode nodeContent env.cwd fileName s).getAttribute "mute")).getD
      false = s.mute := by
    have hattr : (addSourceNode nodeContent env.cwd fileName s).getAttribute "mute" =
        A2SBool s.mute := rfl
    rw [hattr, S2ABool_A2SBool, Option.getD_some]
  have hmod : (S2AModel ((addSourceNode nodeContent env.cwd fileName s).getAttribute "model")).getD
      .unknown = s.model := by
    have hattr : (addSourceNode nodeContent env.cwd fileName s).getAttribute "model" =
        A2SModel s.model := rfl
    rw [hattr, S2AModel_A2SModel hmodel, Option.getD_some]
  have hprop : (addSourceNode nodeContent env.cwd fileName s).getAttribute "properties_file" =
      s.propertiesFile := by
    by_cases hp : s.propertiesFile = "" <;> simp [addSourceNode, hp, Node.getAttribute,
      Node.attributes, List.lookup_cons]
  have hunknown : s.model ≠ .unknown := by
    rcases hmodel with he | he | he <;> rw [he] <;> decide
  simp only [readSource, hposition, horientation, hname, hmod, hprop, hunknown, hmute]
  by_cases ha : s.audioFileName = ""
  · rw [hfile, if_pos ha]
    exact ⟨_, rfl, rfl, rfl, by simp [loadedAudioFile, ha], by simp [ha], rfl, rfl, rfl⟩
  · have hne : s.audioFileChannel ≠ 0 := fun he => by
      have hpos := hc ha
      rw [he] at hpos
      exact absurd hpos (by decide)
    rw [hfile, if_neg ha]
    exact ⟨_, rfl, rfl, rfl, by simp [loadedAudioFile, ha, hne], by simp [ha], rfl, rfl, rfl⟩

end

end Ssr
