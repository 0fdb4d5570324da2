import Ssr.Apf.Biquad
import Ssr.Lib.Transducer

/-!
# Recursive filters (`apf/biquad.h`, `apf/denormalprevention.h`)

A `BiQuad` is a filter section in Direct Form II, a `Cascade` several of them in a row. `δ` is the
state of the denormal prevention, which is a private base class of the section.
-/

set_option autoImplicit false

namespace Apf

variable {δ T : Type}

namespace SosCoefficients

def add [Add T] (lhs rhs : SosCoefficients T) : SosCoefficients T :=
  ⟨lhs.b0 + rhs.b0, lhs.b1 + rhs.b1, lhs.b2 + rhs.b2, lhs.a1 + rhs.a1, lhs.a2 + rhs.a2⟩

def sub [Sub T] (lhs rhs : SosCoefficients T) : SosCoefficients T :=
  ⟨lhs.b0 - rhs.b0, lhs.b1 - rhs.b1, lhs.b2 - rhs.b2, lhs.a1 - rhs.a1, lhs.a2 - rhs.a2⟩

def mul [Mul T] (c : SosCoefficients T) (rhs : T) : SosCoefficients T :=
  ⟨c.b0 * rhs, c.b1 * rhs, c.b2 * rhs, c.a1 * rhs, c.a2 * rhs⟩

def div [Div T] (c : SosCoefficients T) (rhs : T) : SosCoefficients T :=
  ⟨c.b0 / rhs, c.b1 / rhs, c.b2 / rhs, c.a1 / rhs, c.a2 / rhs⟩

end SosCoefficients

/-! ## Denormal prevention -/

structure DenormalPrevention (δ T : Type) where
  init : δ
  /-- The new state and the new value. -/
  preventDenormals : δ → T → δ × T

namespace dp

/-- Disable denormal prevention. -/
def none : DenormalPrevention Unit T := { init := (), preventDenormals := fun _ val => ((), val) }

/-- Add sine component at Nyquist frequency; `antiDenorm` is `1e-18f` or `1e-30`. -/
def ac [Add T] [Neg T] (antiDenorm : T) : DenormalPrevention T T :=
  { init := antiDenorm
    preventDenormals := fun antiDenorm val => (-antiDenorm, val + -antiDenorm) }

end dp

/-! ## Filter sections -/

structure BiQuad (δ T : Type) where
  coefficients : SosCoefficients T
  denormals : δ
  w0 : T
  w1 : T
  w2 : T

namespace BiQuad

def new [Zero T] (prevention : DenormalPrevention δ T) : BiQuad δ T :=
  { coefficients := ⟨0, 0, 0, 0, 0⟩, denormals := prevention.init, w0 := 0, w1 := 0, w2 := 0 }

/-- `operator=`: the state is unchanged. -/
def assign (biquad : BiQuad δ T) (c : SosCoefficients T) : BiQuad δ T :=
  { biquad with coefficients := c }

/-- `operator()` -/
def call [Add T] [Sub T] [Mul T] (prevention : DenormalPrevention δ T) (biquad : BiQuad δ T)
    (input : T) : BiQuad δ T × T :=
  let c := biquad.coefficients
  let w0 := biquad.w1
  let w1 := biquad.w2
  let w2 := input - c.a1 * w1 - c.a2 * w0
  let (denormals, w2) := prevention.preventDenormals biquad.denormals w2
  ({ coefficients := c, denormals, w0, w1, w2 }, c.b0 * w2 + c.b1 * w1 + c.b2 * w0)

end BiQuad

/-! ## Cascades -/

/-- `_sections` -/
abbrev Cascade (δ T : Type) := List (BiQuad δ T)

namespace Cascade

def new [Zero T] (prevention : DenormalPrevention δ T) (n : ℕ) : Cascade δ T :=
  List.replicate n (.new prevention)

/-- The assertion of `set`. -/
def fits (cascade : Cascade δ T) (coefficients : List (SosCoefficients T)) : Bool :=
  cascade.length = coefficients.length

/-- `set`, where the assertion holds. -/
def set (cascade : Cascade δ T) (coefficients : List (SosCoefficients T)) : Cascade δ T :=
  cascade.zipWith BiQuad.assign coefficients

variable [Add T] [Sub T] [Mul T] (prevention : DenormalPrevention δ T)

/-- `operator()` -/
def call (cascade : Cascade δ T) (input : T) : Cascade δ T × T :=
  Lib.pass (BiQuad.call prevention) cascade input

/-- `execute` -/
def execute (cascade : Cascade δ T) (block : List T) : Cascade δ T × List T :=
  Lib.transduce (call prevention) cascade block

end Cascade

end Apf
