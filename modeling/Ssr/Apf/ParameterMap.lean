import Ssr.Apf.Math
import Ssr.Apf.StringTools

/-!
# Parameters (`apf/parameter_map.h`)

A `parameter_map` maps names to strings. `get` converts the string of a name with `S2A`, which stands
for the type of the default value; what the throwing version throws is an `Except` value.
-/

set_option autoImplicit false

namespace Apf

/-- `_map.find(k)`. -/
structure ParameterMap where
  find : String → Option String

namespace ParameterMap

/-- The exceptions, with their texts. -/
inductive Error
  | rangeError (what : String)
  | invalidArgument (what : String)
  deriving DecidableEq, Repr

variable {T : Type}

/-- `operator[]` of a `const` map. -/
def index (params : ParameterMap) (k : String) : Except Error String :=
  match params.find k with
  | none => .error (.rangeError ("Parameter \"" ++ k ++ "\" does not exist in map!"))
  | some value => .ok value

/-- `S2RV(input, std::string())`: a string that is one word. -/
def wordOf (input : String) : String :=
  let word := trim input.toList
  if word = [] || word.any isspace then "" else String.ofList word

/-- `S2RV(input)`, which throws. -/
def S2RV (S2A : String → Option T) (input : String) : Except String T :=
  match S2A input with
  | none => .error ("S2RV(): Couldn't convert \"" ++ wordOf input ++ "\"!")
  | some value => .ok value

/-- The throwing `get(k)`. -/
def getOrThrow (S2A : String → Option T) (params : ParameterMap) (k : String) : Except Error T :=
  match params.index k with
  | .error e => .error e
  | .ok input =>
    match S2RV S2A input with
    | .error what => .error (.invalidArgument ("parameter_map key \"" ++ k ++ "\": " ++ what))
    | .ok value => .ok value

/-- `get(k, def)`, which catches both. -/
def get (S2A : String → Option T) (params : ParameterMap) (k : String) (default : T) : T :=
  match getOrThrow S2A params k with
  | .ok value => value
  | .error (.rangeError _) => default
  | .error (.invalidArgument _) => default

/-- `get("fifo_size", 1024)` in the constructor of `MimoProcessor`. -/
def fifoSize (params : ParameterMap) : Int32 := params.get S2AInt "fifo_size" 1024

/-- The argument of the constructors of `CommandQueue` and `LockFreeFifo`: the conversion of
`fifoSize` to `size_t`. -/
def queueSize (params : ParameterMap) : ℕ := toSize params.fifoSize.toInt

end ParameterMap

end Apf
