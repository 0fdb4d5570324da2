import Ssr.Control.Controller
import Ssr.Xml.Schema

/-!
# Saving a scene (`controller.h`)

`saveSceneAsXml` is the document that `save_scene_as_XML` writes. `nodeContent` stands for libxml2:
it is the content of the node that `xmlNewChild` makes of a text, in which `&` begins an entity
reference.
-/

set_option autoImplicit false

namespace Ssr

open Apf PosixPathTools

variable {F : Type}

/-- `A2S` for a `model_t`. -/
def A2SModel : Model → String
  | .point => "point"
  | .plane => "plane"
  | .line => "line"
  | .directional => "directional"
  | _ => "unknown"

/-- `new_child` with a content. -/
def newChild (nodeContent : String → String) (name : String) (attributes : List (String × String))
    (content : String) : Node :=
  .element name attributes (if content = "" then [] else [.text (nodeContent content)])

section Writing
variable [FloatOps F]

/-- `_add_position` -/
def addPosition (position : Position F) (fixed : Bool) : Node :=
  .element "position"
    ([("x", FloatOps.A2S position.x), ("y", FloatOps.A2S position.y)] ++
      if fixed then [("fixed", A2SBool fixed)] else []) []

/-- `_add_orientation` -/
def addOrientation (orientation : Orientation F) : Node :=
  .element "orientation" [("azimuth", FloatOps.A2S orientation.azimuth)] []

variable (nodeContent : String → String)

/-- `_add_audio_file_name` -/
def addAudioFileName (name : String) (channel : Int32) : Node :=
  newChild nodeContent "file" (if channel ≠ 1 then [("channel", A2SInt channel)] else []) name

/-- `_add_sources`, for one source of a scene that is saved in a file: ids, ports and lengths are
not saved. -/
def addSourceNode (cwd sceneFileName : String) (source : Source F) : Node :=
  .element "source"
    ([("name", source.name), ("model", A2SModel source.model), ("mute", A2SBool source.mute),
        ("volume", FloatOps.A2S (FloatOps.linear2dB source.gain))] ++
      if source.propertiesFile ≠ "" then [("properties_file", source.propertiesFile)] else [])
    ((if source.audioFileName ≠ "" then
        [addAudioFileName nodeContent (makePathRelativeToFile cwd source.audioFileName sceneFileName)
          source.audioFileChannel]
      else []) ++
      [addPosition source.position source.fixedPosition, addOrientation source.orientation])

/-- `_add_master_volume` -/
def addMasterVolume (volume : F) : Node :=
  newChild nodeContent "volume" [] (FloatOps.A2S (FloatOps.linear2dB volume))

/-- `_add_reference` -/
def addReference (s : Scene F) : Node :=
  .element "reference" []
    [addPosition s.referencePosition false, addOrientation s.referenceOrientation]

/-- `get_sources` of the Scene, in the order of the ids. -/
def Scene.getSources (s : Scene F) : List (Source F) := s.sourceMap.entries.map (·.2)

/-- `save_scene_as_XML` -/
def saveSceneAsXml (cwd fileName : String) (s : Scene F) : Node :=
  .element "asdf" []
    [.element "scene_setup" []
      ([addMasterVolume nodeContent s.masterVolume, addReference s] ++
        s.getSources.map (addSourceNode nodeContent cwd fileName))]

end Writing

end Ssr
