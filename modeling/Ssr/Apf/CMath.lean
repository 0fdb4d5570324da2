import Mathlib.Analysis.SpecialFunctions.Complex.Arg
import Mathlib.Analysis.SpecialFunctions.Pow.NNReal

/-!
# Functions of `<cmath>`

The mathematical functions that numeric code calls, over a type `T` of numbers. The reals are the
exact arithmetic in which the results about this code are stated.
-/

set_option autoImplicit false

namespace Apf

class CMath (T : Type) where
  sqrt : T → T
  sin : T → T
  cos : T → T
  tan : T → T
  /-- `atan2(y, x)` -/
  atan2 : T → T → T
  /-- The remainder of `x / y`, with the sign of `x`. -/
  fmod : T → T → T
  /-- `math::pi<T>()` -/
  pi : T

noncomputable instance : CMath ℝ where
  sqrt := Real.sqrt
  sin := Real.sin
  cos := Real.cos
  tan := Real.tan
  atan2 y x := Complex.arg ⟨x, y⟩
  fmod x y := x - y * (if 0 ≤ x / y then ⌊x / y⌋ else ⌈x / y⌉)
  pi := Real.pi

/-! ## `apf/math.h` -/

section
variable {T : Type} [DivisionRing T] [CMath T]

def piDiv180 : T :=
  let q : T := (180 : ℕ)
  CMath.pi / q

def deg2rad (angle : T) : T := angle * piDiv180

variable [LinearOrder T]

def fwrap (x full : T) : T :=
  let x := CMath.fmod x full
  if x < 0 then x + full else x

def wrapTwoPi (x : T) : T :=
  let two : T := (2 : ℕ)
  fwrap x (two * CMath.pi)

end

end Apf
