import Ssr.Apf.StringTools
import Ssr.Lib.OrdMap
import Ssr.Path.PosixPathTools
import Mathlib.Data.String.Basic

/-!
# Configuration files (`configuration.cpp`)

A configuration file is read line by line into two buffers, `key` and `value`; the key decides what
is done with the value. Characters are never negative, and what is only printed is left out.
-/

set_option autoImplicit false

namespace Ssr

open Apf Lib PosixPathTools

variable {F : Type}

/-- What is known of the system: the working directory, a feature of the build, and `atof`. -/
structure ConfigEnv (F : Type) where
  cwd : String
  enableIpInterface : Bool
  atof : String → F

/-- The members of `conf_struct` that a configuration file can set, and `ssr::verbose`. -/
structure ConfStruct (F : Type) where
  rendererParams : OrdMap String String
  standAmplRefDist : F
  gui : Bool
  ipServer : Bool
  tracker : String
  trackerPorts : String
  freewheeling : Bool
  sceneFileName : String
  xmlSchema : String
  audioRecorderFileName : String
  inputPortPrefix : String
  outputPortPrefix : String
  pathToGuiImages : String
  pathToSceneMenu : String
  serverPort : ℤ
  verbose : ℤ

def ConfStruct.setParam (conf : ConfStruct F) (name value : String) : ConfStruct F :=
  { conf with rendererParams := conf.rendererParams.insert name value }

namespace Configuration

/-! ## Lines -/

def bufSize : ℕ := 4096

/-- What the calls of `fgets` return, where `line` has been read of the present one, in reverse. -/
def fgets (size : ℕ) (line : List Char) : List Char → List (List Char)
  | [] => if line = [] then [] else [line.reverse]
  | c :: cs =>
    if c = '\n' ∨ line.length + 2 = size then (c :: line).reverse :: fgets size [] cs
    else fgets size (c :: line) cs

/-- The characters before the null character. -/
def cString (line : List Char) : List Char := line.takeWhile (· ≠ Char.ofNat 0)

/-- The lines in the buffer `line`, one after the other. -/
def bufferLines (file : List Char) : List (List Char) := (fgets bufSize [] file).map cString

def isCommentOrEmpty (line : List Char) : Bool :=
  match line.dropWhile isspace with
  | [] => true
  | c :: _ => c = '#'

inductive ParseResult
  | success
  | noValue
  | empty
  | noQuote
  | quote
  deriving DecidableEq, Repr

/-- The last part of `parse`, where `line` is not empty and starts with the value. -/
def parseValue (line : List Char) : ParseResult × List Char :=
  let quoted := line.head? = some '"'
  let line := if quoted then line.tail else line
  let inValue (c : Char) : Bool := c ≠ '"' && c ≠ '\r' && c ≠ '\n'
  let value := line.takeWhile inValue
  let line := line.dropWhile inValue
  if quoted ∧ line.head? ≠ some '"' then (.noQuote, value)
  else if ¬ quoted ∧ line.head? = some '"' then (.quote, value)
  else (.success, value)

/-- `parse`: the result and the contents of the two buffers, where `value` is what the second one
contains before. -/
def parse (line value : List Char) : ParseResult × List Char × List Char :=
  let line := line.dropWhile isspace
  let inKey (c : Char) : Bool := !isspace c && c ≠ '='
  let key := line.takeWhile inKey
  let line := (line.dropWhile inKey).dropWhile isspace
  if line.head? ≠ some '=' then (.noValue, key, value)
  else
    let line := line.dropWhile fun c => isspace c || c = '='
    if line = [] then (.empty, key, value)
    else
      let (result, value) := parseValue line
      (result, key, value)

/-! ## Options -/

inductive ConfOption
  | name
  | numberOfThreads
  | masterVolumeCorrection
  | standardAmplitudeReferenceDistance
  | sceneFileName
  | sceneMenu
  | playbackSetupFileName
  | xmlSchemaFileName
  | audioRecorderFileName
  | rendererType
  | wfsPrefilter
  | delaylineSize
  | initialDelay
  | hrirFileName
  | hrirSize
  | ambisonicsOrder
  | inPhaseRendering
  | inputPrefix
  | outputPrefix
  | pathToGuiImages
  | freewheel
  | gui
  | networkInterface
  | serverPort
  | verbose
  | tracker
  | trackerPorts
  deriving DecidableEq, Repr

namespace ConfOption

def key : ConfOption → String
  | name => "NAME"
  | numberOfThreads => "NUMBER_OF_THREADS"
  | masterVolumeCorrection => "MASTER_VOLUME_CORRECTION"
  | standardAmplitudeReferenceDistance => "STANDARD_AMPLITUDE_REFERENCE_DISTANCE"
  | sceneFileName => "SCENE_FILE_NAME"
  | sceneMenu => "SCENE_MENU"
  | playbackSetupFileName => "PLAYBACK_SETUP_FILE_NAME"
  | xmlSchemaFileName => "XML_SCHEMA_FILE_NAME"
  | audioRecorderFileName => "AUDIO_RECORDER_FILE_NAME"
  | rendererType => "RENDERER_TYPE"
  | wfsPrefilter => "WFS_PREFILTER"
  | delaylineSize => "DELAYLINE_SIZE"
  | initialDelay => "INITIAL_DELAY"
  | hrirFileName => "HRIR_FILE_NAME"
  | hrirSize => "HRIR_SIZE"
  | ambisonicsOrder => "AMBISONICS_ORDER"
  | inPhaseRendering => "IN_PHASE_RENDERING"
  | inputPrefix => "INPUT_PREFIX"
  | outputPrefix => "OUTPUT_PREFIX"
  | pathToGuiImages => "PATH_TO_GUI_IMAGES"
  | freewheel => "FREEWHEEL"
  | gui => "GUI"
  | networkInterface => "NETWORK_INTERFACE"
  | serverPort => "SERVER_PORT"
  | verbose => "VERBOSE"
  | tracker => "TRACKER"
  | trackerPorts => "TRACKER_PORTS"

/-- In the order of the comparisons. -/
def all : List ConfOption :=
  [name, numberOfThreads, masterVolumeCorrection, standardAmplitudeReferenceDistance, sceneFileName,
    sceneMenu, playbackSetupFileName, xmlSchemaFileName, audioRecorderFileName, rendererType,
    wfsPrefilter, delaylineSize, initialDelay, hrirFileName, hrirSize, ambisonicsOrder,
    inPhaseRendering, inputPrefix, outputPrefix, pathToGuiImages, freewheel, gui, networkInterface,
    serverPort, verbose, tracker, trackerPorts]

def ofKey (key : String) : Option ConfOption := all.find? (·.key = key)

end ConfOption

/-- Why reading a file ends before its end: `EXIT_FAILURE`, an assertion that fails, or an exception
of `parameter_map::get`. -/
inductive ConfigError
  | cannotOpen
  | noValue
  | noQuote
  | quote
  | unknownOption (key : String)
  | assertion (param : String)
  | invalidArgument (param : String)
  deriving DecidableEq, Repr

/-- The digits at the beginning. -/
def leadingNat (s : List Char) : ℤ := ((readNat (s.takeWhile Char.isDigit)).getD 0 : ℕ)

/-- `atoi`, without overflow. -/
def atoi (s : String) : ℤ :=
  match s.toList.dropWhile isspace with
  | '-' :: s => -leadingNat s
  | '+' :: s => leadingNat s
  | s => leadingNat s

/-- `!strcasecmp(a, b)` -/
def sameIgnoringCase (a b : String) : Bool := a.toList.map Char.toLower = b.toList.map Char.toLower

/-- The parameter of a size, which has to be a number that is not less than `least`. -/
def setSize (conf : ConfStruct F) (name value : String) (least : ℤ) :
    Except ConfigError (ConfStruct F) :=
  match S2AInt value with
  | none => .error (.invalidArgument name)
  | some n => if n.toInt < least then .error (.assertion name) else .ok (conf.setParam name value)

/-- `HRIR_SIZE`, where the default value of `get` fails the assertion. -/
def setHrirSize (conf : ConfStruct F) (value : String) : Except ConfigError (ConfStruct F) :=
  if ((S2AInt value).getD 0).toInt < 1 then .error (.assertion "hrir_size")
  else .ok (conf.setParam "hrir_size" value)

variable (env : ConfigEnv F) (filename : String)

/-- The branches of `load_config_file`. -/
def setOption (conf : ConfStruct F) (value : String) :
    ConfOption → Except ConfigError (ConfStruct F)
  | .name => .ok (conf.setParam "name" value)
  | .numberOfThreads => .ok (conf.setParam "threads" value)
  | .masterVolumeCorrection => .ok (conf.setParam "master_volume_correction" value)
  | .standardAmplitudeReferenceDistance => .ok { conf with standAmplRefDist := env.atof value }
  | .sceneFileName =>
    .ok { conf with sceneFileName := makePathRelativeToCurrentDir env.cwd value filename }
  | .sceneMenu =>
    .ok { conf with pathToSceneMenu := makePathRelativeToCurrentDir env.cwd value filename }
  | .playbackSetupFileName =>
    .ok (conf.setParam "reproduction_setup" (makePathRelativeToCurrentDir env.cwd value filename))
  | .xmlSchemaFileName =>
    .ok { conf with xmlSchema := makePathRelativeToCurrentDir env.cwd value filename }
  | .audioRecorderFileName =>
    .ok { conf with audioRecorderFileName := makePathRelativeToCurrentDir env.cwd value filename }
  | .rendererType => .ok conf
  | .wfsPrefilter =>
    .ok (conf.setParam "prefilter_file" (makePathRelativeToCurrentDir env.cwd value filename))
  | .delaylineSize => setSize conf "delayline_size" value 0
  | .initialDelay => setSize conf "initial_delay" value 0
  | .hrirFileName =>
    .ok (conf.setParam "hrir_file" (makePathRelativeToCurrentDir env.cwd value filename))
  | .hrirSize => setHrirSize conf value
  | .ambisonicsOrder => .ok (conf.setParam "ambisonics_order" (toString (atoi value)))
  | .inPhaseRendering =>
    if sameIgnoringCase value "TRUE" then .ok (conf.setParam "in_phase" (A2SBool true))
    else if sameIgnoringCase value "FALSE" then .ok (conf.setParam "in_phase" (A2SBool false))
    else .ok conf
  | .inputPrefix => .ok { conf with inputPortPrefix := value }
  | .outputPrefix => .ok { conf with outputPortPrefix := value }
  | .pathToGuiImages =>
    .ok { conf with pathToGuiImages := makePathRelativeToCurrentDir env.cwd value filename }
  | .freewheel => .ok { conf with freewheeling := sameIgnoringCase value "yes" }
  | .gui => .ok { conf with gui := sameIgnoringCase value "on" }
  | .networkInterface =>
    .ok (if env.enableIpInterface then { conf with ipServer := sameIgnoringCase value "on" } else conf)
  | .serverPort =>
    .ok (if env.enableIpInterface then { conf with serverPort := atoi value } else conf)
  | .verbose => .ok { conf with verbose := atoi value }
  | .tracker => .ok { conf with tracker := value }
  | .trackerPorts => .ok { conf with trackerPorts := value }

def setKey (conf : ConfStruct F) (key value : List Char) : Except ConfigError (ConfStruct F) :=
  match ConfOption.ofKey (String.ofList key) with
  | some option => setOption env filename conf (String.ofList value) option
  | none => .error (.unknownOption (String.ofList key))

/-- The loop of `load_config_file`; `value` is what the buffer contains. -/
def loadLines (conf : ConfStruct F) (value : List Char) :
    List (List Char) → Except ConfigError (ConfStruct F)
  | [] => .ok conf
  | line :: lines =>
    if isCommentOrEmpty line then loadLines conf value lines
    else match parse line value with
    | (.noValue, _, _) => .error .noValue
    | (.noQuote, _, _) => .error .noQuote
    | (.quote, _, _) => .error .quote
    | (_, key, value) => do
      let conf ← setKey env filename conf key value
      loadLines conf value lines

/-- `load_config_file`: `file` is the content, if the file can be opened, and `buffer` what `value`
contains at the beginning. -/
def loadConfigFile (file : Option (List Char)) (conf : ConfStruct F) (buffer : List Char) :
    Except ConfigError (ConfStruct F) :=
  match file with
  | none => .error .cannotOpen
  | some file => loadLines env filename conf buffer (bufferLines file)

end Configuration

end Ssr
