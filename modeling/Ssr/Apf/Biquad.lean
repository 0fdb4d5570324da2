import Ssr.Apf.CMath
import Mathlib.LinearAlgebra.Matrix.Notation

/-!
# Filter sections (`apf/biquad.h`)

The conversion of a section of an analog filter to a section of a digital filter. `prewarp` and
`stateSpace` are the first lines of `bilinear()`, its other lines are `bilinearAt`.
-/

set_option autoImplicit false

namespace Apf

/-- Coefficients of a digital recursive filter. -/
structure SosCoefficients (T : Type) where
  b0 : T
  b1 : T
  b2 : T
  a1 : T
  a2 : T

/-- Coefficients of an analog recursive filter. -/
structure LaplaceCoefficients (T : Type) where
  b0 : T
  b1 : T
  b2 : T
  a1 : T
  a2 : T

/-- `std::complex<T>` -/
structure StdComplex (T : Type) where
  real : T
  imag : T

variable {T : Type} [DivisionRing T]

namespace StdComplex

def neg (x : StdComplex T) : StdComplex T := ⟨-x.real, -x.imag⟩
def sub (x y : StdComplex T) : StdComplex T := ⟨x.real - y.real, x.imag - y.imag⟩
def mul (x y : StdComplex T) : StdComplex T :=
  ⟨x.real * y.real - x.imag * y.imag, x.real * y.imag + x.imag * y.real⟩

end StdComplex

variable [LinearOrder T] [CMath T]

/-- `internal::roots2poly(Roots, poly1, poly2)`, the result is `(poly1, poly2)`. -/
def roots2poly (roots : Matrix (Fin 2) (Fin 2) T) : T × T :=
  let two : T := (2 : ℕ)
  let half := (roots 0 0 + roots 1 1) / two
  let tmpArg := half ^ 2 + roots 0 1 * roots 1 0 - roots 0 0 * roots 1 1
  let eig : StdComplex T × StdComplex T :=
    if tmpArg > 0 then (⟨half + CMath.sqrt tmpArg, 0⟩, ⟨half - CMath.sqrt tmpArg, 0⟩)
    else (⟨half, CMath.sqrt (-tmpArg)⟩, ⟨half, -CMath.sqrt (-tmpArg)⟩)
  ((eig.1.neg.sub eig.2).real, (eig.2.neg.mul eig.1.neg).real)

/-- `lambda`, for the sampling rate `fs` and the prewarping frequency `fp`. -/
def prewarp (fs fp : ℤ) : T :=
  let two : T := (2 : ℕ)
  let fpTemp : T := fp * (two * CMath.pi)
  fpTemp / CMath.tan (fpTemp / fs / two) / two

/-- The matrices `T1` and `T2`: the identity plus and minus `t / 2` times the state matrix. -/
def stateSpace (coeffs : LaplaceCoefficients T) (t : T) :
    Matrix (Fin 2) (Fin 2) T × Matrix (Fin 2) (Fin 2) T :=
  let two : T := (2 : ℕ)
  let A : Matrix (Fin 2) (Fin 2) T := !![-coeffs.a1, -coeffs.a2; 1, 0]
  (!![t / two * A 0 0 + 1, t / two * A 0 1; t / two * A 1 0, t / two * A 1 1 + 1],
    !![-(t / two) * A 0 0 + 1, -(t / two) * A 0 1; -(t / two) * A 1 0, -(t / two) * A 1 1 + 1])

/-- `det` in `bilinear()` -/
def bilinearDet (coeffs : LaplaceCoefficients T) (lambda : T) : T :=
  let T2 := (stateSpace coeffs (1 / lambda)).2
  T2 0 0 * T2 1 1 - T2 0 1 * T2 1 0

/-- `bilinear()` once the prewarping factor is known. -/
def bilinearAt (coeffs : LaplaceCoefficients T) (lambda : T) : SosCoefficients T :=
  let two : T := (2 : ℕ)
  let B : Fin 2 → T := ![1, 0]
  let C : Fin 2 → T := ![coeffs.b1 - coeffs.a1, coeffs.b2 - coeffs.a2]
  let D : T := 1
  let t := 1 / lambda
  let r := CMath.sqrt t
  let T1 := (stateSpace coeffs t).1
  let T2 := (stateSpace coeffs t).2
  let det := bilinearDet coeffs lambda
  let Ad : Matrix (Fin 2) (Fin 2) T :=
    !![(T1 0 0 * T2 1 1 - T1 1 0 * T2 0 1) / det, (T1 0 1 * T2 1 1 - T1 1 1 * T2 0 1) / det;
      (T1 1 0 * T2 0 0 - T1 0 0 * T2 1 0) / det, (T1 1 1 * T2 0 0 - T1 0 1 * T2 1 0) / det]
  let Bd : Fin 2 → T :=
    ![t / r * (B 0 * T2 1 1 - B 1 * T2 0 1) / det, t / r * (B 1 * T2 0 0 - B 0 * T2 1 0) / det]
  let Cd : Fin 2 → T :=
    ![(C 0 * T2 1 1 - C 1 * T2 1 0) / det, (C 1 * T2 0 0 - C 0 * T2 0 1) / det]
  let Dd := (B 0 * Cd 0 + B 1 * Cd 1) * (t / two) + D
  let Cd : Fin 2 → T := ![Cd 0 * r, Cd 1 * r]
  let a := roots2poly Ad
  let b := roots2poly !![Ad 0 0 - Bd 0 * Cd 0, Ad 0 1 - Bd 0 * Cd 1;
    Ad 1 0 - Bd 1 * Cd 0, Ad 1 1 - Bd 1 * Cd 1]
  { a1 := a.1
    a2 := a.2
    b0 := Dd
    b1 := b.1 + (Dd - 1) * a.1
    b2 := b.2 + (Dd - 1) * a.2 }

/-- `bilinear(coeffs_in, fs, fp)` -/
def bilinear (coeffs : LaplaceCoefficients T) (fs fp : ℤ) : SosCoefficients T :=
  bilinearAt coeffs (prewarp fs fp)

end Apf
