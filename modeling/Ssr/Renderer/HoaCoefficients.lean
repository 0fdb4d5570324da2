import Ssr.Apf.Biquad
import Ssr.Apf.Math
import Ssr.Renderer.RendererBase

/-!
# Filter coefficients of NFC-HOA (`hoacoefficients.h`)

`HoaCoefficients` takes the sections of its order out of `laplace_coeffs`, a table that all orders
share. An order is a `size_t`, and so are the first row and the number of sections that are computed
from it. `maxSize` is the greatest size of a `std::vector<SosCoefficients<T>>`.
-/

set_option autoImplicit false

namespace Ssr

open Apf (SosCoefficients LaplaceCoefficients CMath add64 mul64)

/-- Number of sections of the `Cascade` of a mode. -/
def Mode.filterSections (modeNumber : ℕ) : ℕ :=
  if modeNumber = 0 then 1 else add64 modeNumber 1 / 2

inductive SourceType
  | pointSource
  | planeWave
  deriving DecidableEq, Repr

structure HoaCoefficients (T : Type) where
  /-- the vector -/
  sections : List (SosCoefficients T)
  coeffsBegin : ℕ
  sampleRate : ℕ
  arrayRadius : T
  speedOfSound : T

namespace HoaCoefficients

/-- What the constructor throws. -/
inductive Error
  /-- of `std::vector` -/
  | lengthError
  | logicError (what : String)
  deriving DecidableEq, Repr

/-- Number of sections of an order. -/
def numSections (order : ℕ) : ℕ := if order = 0 then 1 else add64 order 1 / 2

/-- The row of the first section of an order. -/
def startRow (order : ℕ) : ℕ := add64 (if order = 0 then 0 else 1) (mul64 order order / 4)

variable {T : Type} [DivisionRing T]

/-- The constructor. -/
def new (maxSize order sampleRate : ℕ) (arrayRadius speedOfSound : T) :
    Except Error (HoaCoefficients T) :=
  if maxSize < numSections order then .error .lengthError
  else if startRow order ≥ laplaceCoeffsRows then
    .error (.logicError ("HoaCoefficients: Order " ++ toString order ++ " is not supported!"))
  else .ok
    { sections := List.replicate (numSections order) ⟨0, 0, 0, 0, 0⟩
      coeffsBegin := startRow order, sampleRate, arrayRadius, speedOfSound }

/-- `std::copy` of rows of a table, from the row `first` on; `none` if one of them is outside. -/
def readRows {α : Type} (table : List α) : ℕ → ℕ → Option (List α)
  | _, 0 => some []
  | first, n + 1 => do
    let row ← table[first]?
    let rows ← readRows table (first + 1) n
    return row :: rows

variable [LinearOrder T] [CMath T]

/-- `Scaler::operator()` -/
def scale (c : HoaCoefficients T) (distance : T) (sourceType : SourceType) (row : T × T) :
    SosCoefficients T :=
  let scaleFactorOne := c.speedOfSound / distance
  let scaleFactorTwo := c.speedOfSound / c.arrayRadius
  let b : T × T :=
    match sourceType with
    | .pointSource => (row.1 * scaleFactorOne, row.2 * scaleFactorOne ^ 2)
    | .planeWave => row
  let coeffs : LaplaceCoefficients T :=
    { b0 := 0, b1 := b.1, b2 := b.2, a1 := row.1 * scaleFactorTwo
      a2 := row.2 * scaleFactorTwo ^ 2 }
  -- the sampling rate is converted to `int`
  Apf.bilinear coeffs ((c.sampleRate : ℤ).bmod (2 ^ 32)) 1000

/-- `reset()`: as many rows as there are sections are scaled; `none` if one is read outside the
table. -/
def reset (table : List (T × T)) (c : HoaCoefficients T) (distance : T) (sourceType : SourceType) :
    Option (HoaCoefficients T) :=
  (readRows table c.coeffsBegin c.sections.length).map fun rows =>
    { c with sections := rows.map (c.scale distance sourceType) }

end HoaCoefficients

end Ssr
