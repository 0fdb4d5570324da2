import Ssr.Lib.Istream
import Ssr.Apf.Math
import Ssr.Path.PosixPathTools

/-!
# The audio player (`audioplayer.cpp`)

A `Soundfile` talks to ecasound: it opens the file once to learn its format (`getFormat`), opens the
JACK input for the sampling rate, and then sets up its own chain. Each of the three has a control
interface of its own, which is given by what it answers after the commands that it has received.
-/

set_option autoImplicit false

namespace Ssr.AudioPlayer

open Lib (Istream)
open PosixPathTools (getEscapedFilename)

/-- An `ECA_CONTROL_INTERFACE`, from the commands so far. -/
structure Ecasound where
  error : List String → Bool
  lastError : List String → String
  lastString : List String → String
  lastLongInteger : List String → ℤ

/-- The sound format that `ai-get-format` gives. -/
structure Format where
  format : String
  channels : ℕ
  sampleRate : ℕ
  deriving DecidableEq, Repr

/-- `iss >> n` for a `size_t`; a minus sign wraps. -/
def extractSize (iss : Istream) : Istream × Option ℕ :=
  match iss.extract Apf.isspace .integer (·.whole.value < Apf.word) with
  | (iss, n) => (iss, n.map fun n => Apf.toSize n.intValue)

/-- `iss >> format >> channels >> sample_rate`, once the commas have been replaced. -/
def readFormat (str : String) : Option Format :=
  let iss := Istream.new (str.toList.map fun c => if c = ',' then ' ' else c)
  match iss.extractWord Apf.isspace with
  | (iss, some format) =>
    match extractSize iss with
    | (iss, some channels) =>
      match extractSize iss with
      | (_, some sampleRate) => some { format := String.ofList format, channels, sampleRate }
      | (_, none) => none
    | (_, none) => none
  | (_, none) => none

/-- What `get_format()` and `_get_jack_sample_rate()` do, given the input, the command that selects
it, if any, and the texts of the errors: the commands and the format. -/
def probe (eca : Ecasound) (aiAdd : String) (select : List String) (context conversion : String) :
    List String × Except String Format :=
  let sent := ["cs-add dummy_chainsetup", "c-add dummy_chain", aiAdd, "ao-add null", "cs-connect"]
  if eca.error sent then (sent, .error (context ++ eca.lastError sent))
  else
    let sent := sent ++ select ++ ["ai-get-format"]
    let str := eca.lastString sent
    let sent := sent ++ ["cs-disconnect", "c-remove", "cs-remove"]
    match readFormat str with
    | none => (sent, .error conversion)
    | some format => (sent, .ok format)

namespace Soundfile

def getFormat (eca : Ecasound) (filename : String) : List String × Except String Format :=
  probe eca ("ai-add sndfile," ++ getEscapedFilename filename) ["ai-index-select 1"]
    "get_format(): " "Couldn't convert format string!"

def getJackSampleRate (eca : Ecasound) : List String × Except String ℕ :=
  match probe eca "ai-add jack" [] "_get_jack_sample_rate(): "
    "Couldn't convert string for getting sample rate!" with
  | (sent, format) => (sent, format.map Format.sampleRate)

/-- The last characters of a name that is too long, with `<` in place of the first one. -/
def truncate (escapedFilename : List Char) (maxSize : ℕ) : List Char :=
  if escapedFilename.length > maxSize then
    match escapedFilename.drop (escapedFilename.length - maxSize) with
    | [] => []
    | _ :: cs => '<' :: cs
  else escapedFilename

/-- `_client_name`; `maxSize` is what is left of `jack_client_name_size()`, as a `size_t`. -/
def makeClientName (escapedFilename : String) (maxSize : ℕ) : String :=
  String.ofList (('[' :: truncate escapedFilename.toList maxSize).map fun c =>
    if c = '/' then '_' else c)

end Soundfile

structure Soundfile where
  outputPrefix : String
  filename : String
  escapedFilename : String
  clientName : String
  format : Format
  lengthSamples : ℤ
  deriving DecidableEq, Repr

/-- The commands that the three control interfaces have received. -/
structure Commands where
  format : List String
  jack : List String
  own : List String
  deriving DecidableEq, Repr

/-- What the constructor gets from outside: the control interfaces that `get_format()`,
`_get_jack_sample_rate()` and the object itself use, and `jack_client_name_size()`. -/
structure Environment where
  format : Ecasound
  jack : Ecasound
  own : Ecasound
  jackClientNameSize : ℤ

namespace Soundfile

/-- `ai_add` in the constructor. -/
def aiAdd (escapedFilename : String) (loop resample : Bool) : String :=
  "ai-add " ++ (if loop then "audioloop," else "") ++ (if resample then "resample-hq,auto," else "") ++
    "sndfile," ++ escapedFilename

/-- The commands up to `cs-connect`, which set up the chain. -/
def setUp (escapedFilename outputPrefix clientName : String) (loop : Bool) (format : Format)
    (jackSampleRate : ℕ) : List String :=
  ["cs-add real_chainsetup", "c-add real_chain",
    "cs-set-audio-format ," ++ toString format.channels ++ "," ++ toString jackSampleRate,
    aiAdd escapedFilename loop (format.sampleRate ≠ jackSampleRate),
    "ao-add jack_generic," ++ outputPrefix, "-G:jack," ++ clientName ++ ",recv", "cs-connect"]

/-- What the constructor does once both sampling rates are known. -/
def connect (eca : Ecasound) (file : Soundfile) (loop : Bool) (jackSampleRate : ℕ) :
    List String × Except String Soundfile :=
  let sent := setUp file.escapedFilename file.outputPrefix file.clientName loop file.format
    jackSampleRate
  if eca.error sent then (sent, .error ("AudioPlayer::Soundfile: " ++ eca.lastError sent))
  else
    let sent := sent ++ ["ai-get-length-samples"]
    let lengthSamples := eca.lastLongInteger sent
    let sent := sent ++ ["engine-launch"]
    if eca.error sent then
      let sent := sent ++ ["cs-disconnect"]
      (sent, .error ("AudioPlayer::Soundfile: " ++ eca.lastError sent))
    else (sent, .ok { file with lengthSamples })

/-- The constructor. -/
def new (env : Environment) (filename : String) (loop : Bool) (outputPrefix : String) :
    Commands × Except String Soundfile :=
  let escapedFilename := getEscapedFilename filename
  match getFormat env.format escapedFilename with
  | (sent, .error e) => ({ format := sent, jack := [], own := [] }, .error e)
  | (sent, .ok format) =>
    match getJackSampleRate env.jack with
    | (jack, .error e) => ({ format := sent, jack, own := [] }, .error e)
    | (jack, .ok jackSampleRate) =>
      let clientName := makeClientName escapedFilename
        (Apf.toSize (env.jackClientNameSize - 5))
      let file : Soundfile :=
        { outputPrefix, filename, escapedFilename, clientName, format, lengthSamples := 0 }
      match connect env.own file loop jackSampleRate with
      | (own, result) => ({ format := sent, jack, own }, result)

end Soundfile

end Ssr.AudioPlayer
