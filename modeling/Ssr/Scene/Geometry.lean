import Ssr.Apf.CMath
import Ssr.Scene.Source
import Mathlib.Analysis.SpecialFunctions.Log.Base

/-!
# Geometry of the plane (`position.cpp`, `orientation.cpp`, `directionalpoint.cpp`)

Angles of orientations are in degrees, counterclockwise from the x-axis.
-/

set_option autoImplicit false

namespace Ssr

open Apf

/-- Exact numbers; only whole numbers are written and read. -/
noncomputable instance : FloatOps ℝ where
  ofInt n := n
  neg a := -a
  mul a b := a * b
  div a b := a / b
  cos := Real.cos
  sin := Real.sin
  pi := Real.pi
  gt a b := decide (b < a)
  dB2linear L := 10 ^ (L / 20)
  linear2dB x := 20 * Real.logb 10 x
  A2S x := toString ⌊x⌋
  S2A s := (readInt (trim s.toList)).map fun n => (n : ℝ)
  ninety_ne_zero := by norm_num

variable {T : Type} [DivisionRing T]

namespace Position

def add (a b : Position T) : Position T := ⟨a.x + b.x, a.y + b.y⟩
def sub (a b : Position T) : Position T := ⟨a.x - b.x, a.y - b.y⟩
def div (a : Position T) (b : T) : Position T := ⟨a.x / b, a.y / b⟩

variable [CMath T]

def length (p : Position T) : T := CMath.sqrt (p.x * p.x + p.y * p.y)

def orientation (p : Position T) : Orientation T := ⟨CMath.atan2 p.y p.x / piDiv180⟩

/-- Turn around the origin. -/
def rotate (p : Position T) (angle : T) : Position T :=
  let phi := deg2rad (p.orientation.azimuth + angle)
  let radius := p.length
  ⟨radius * CMath.cos phi, radius * CMath.sin phi⟩

end Position

namespace Orientation

def add (a b : Orientation T) : Orientation T := ⟨a.azimuth + b.azimuth⟩
def sub (a b : Orientation T) : Orientation T := ⟨a.azimuth - b.azimuth⟩
def div (a : Orientation T) (b : T) : Orientation T := ⟨a.azimuth / b⟩
def rotate (a : Orientation T) (angle : T) : Orientation T := ⟨a.azimuth + angle⟩

end Orientation

structure DirectionalPoint (T : Type) where
  position : Position T
  orientation : Orientation T

namespace DirectionalPoint

def add (a b : DirectionalPoint T) : DirectionalPoint T :=
  ⟨a.position.add b.position, a.orientation.add b.orientation⟩

def sub (a b : DirectionalPoint T) : DirectionalPoint T :=
  ⟨a.position.sub b.position, a.orientation.sub b.orientation⟩

def div (a : DirectionalPoint T) (b : T) : DirectionalPoint T :=
  ⟨a.position.div b, a.orientation.div b⟩

variable [CMath T]

/-- Turn around the origin. -/
def rotate (a : DirectionalPoint T) (angle : T) : DirectionalPoint T :=
  ⟨a.position.rotate angle, a.orientation.rotate angle⟩

def transform (a t : DirectionalPoint T) : DirectionalPoint T :=
  ⟨(a.position.rotate t.orientation.azimuth).add t.position,
    a.orientation.rotate t.orientation.azimuth⟩

end DirectionalPoint

section
variable [CMath T]

/-- `angle` of two orientations, in radians. -/
def angle (a b : Orientation T) : T := deg2rad (a.azimuth - b.azimuth)

/-- `angle` of a position and an orientation. -/
def angleOf (point : Position T) (orientation : Orientation T) : T :=
  angle point.orientation orientation

def DirectionalPoint.planeToPointDistance (a : DirectionalPoint T) (point : Position T) : T :=
  let temp := point.sub a.position
  temp.length * CMath.cos (angle a.orientation temp.orientation)

end

end Ssr
