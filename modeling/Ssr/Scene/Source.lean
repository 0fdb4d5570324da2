import Ssr.Apf.StringTools
import Mathlib.Algebra.Group.Int.Defs

/-!
# Positions, orientations and sources (`position.h`, `orientation.h`, `source.h`)

Floating-point numbers are a type `F` with the operations that the code uses (`FloatOps`). Nothing
is assumed of their results, except that the literals 0 and 90 differ.
-/

set_option autoImplicit false

namespace Ssr

/-- The operations on `float`s: literals, arithmetic, the decibel functions of `apf/math.h`, and the
string conversions `A2S` and `S2A` of `apf/stringtools.h`. -/
class FloatOps (F : Type) where
  ofInt : ℤ → F
  neg : F → F
  mul : F → F → F
  div : F → F → F
  cos : F → F
  sin : F → F
  pi : F
  /-- `a > b` -/
  gt : F → F → Bool
  dB2linear : F → F
  linear2dB : F → F
  A2S : F → String
  S2A : String → Option F
  ninety_ne_zero : ofInt 90 ≠ ofInt 0

/-- Whole numbers, on which the model can be evaluated: levels are exact for the powers of ten. -/
instance : FloatOps ℤ where
  ofInt n := n
  neg a := -a
  mul a b := a * b
  div a b := a / b
  cos _ := 0
  sin _ := 0
  pi := 3
  gt a b := decide (b < a)
  dB2linear n := 10 ^ (n / 20).toNat
  linear2dB n := 20 * ((toString n.toNat).length - 1)
  A2S n := toString n
  S2A s := Apf.readInt (Apf.trim s.toList)
  ninety_ne_zero := by decide

variable {F : Type}

structure Position (F : Type) where
  x : F
  y : F
  deriving DecidableEq, Repr

structure Orientation (F : Type) where
  azimuth : F
  deriving DecidableEq, Repr

/-- `Source::model_t` -/
inductive Model
  | unknown
  | point
  | plane
  | line
  | directional
  | extended
  deriving DecidableEq, Repr

/-- `struct Source`, without the fields that only carry levels or are never set. -/
structure Source (F : Type) where
  name : String
  audioFileName : String
  audioFileChannel : Int32
  portName : String
  fileLength : ℤ
  position : Position F
  orientation : Orientation F
  model : Model
  mute : Bool
  gain : F
  fixedPosition : Bool
  propertiesFile : String
  deriving DecidableEq, Repr

variable [FloatOps F]

/-- `Position()` -/
def Position.origin : Position F := ⟨FloatOps.ofInt 0, FloatOps.ofInt 0⟩

/-- `Orientation()` -/
def Orientation.zero : Orientation F := ⟨FloatOps.ofInt 0⟩

/-- The constructor of `Source`. -/
def Source.new : Source F :=
  { name := "", audioFileName := "", audioFileChannel := 0, portName := "", fileLength := 0,
    position := .origin, orientation := .zero, model := .point, mute := false,
    gain := FloatOps.ofInt 1, fixedPosition := false, propertiesFile := "" }

end Ssr
