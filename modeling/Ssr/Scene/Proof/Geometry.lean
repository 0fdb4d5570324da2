import Ssr.Apf.Proof.CMath
import Ssr.Scene.Geometry

/-!
# The plane as the complex numbers

Positions are complex numbers; adding is adding, and to turn a position is to multiply it with a
number of length 1 (`toComplex_rotate`). Azimuths are arguments in degrees. An angle only matters up
to full turns, so it is represented by `unit angle`.
-/

set_option autoImplicit false

namespace Ssr

open Apf

theorem deg2rad_orientation (p : Position ℝ) :
    deg2rad p.orientation.azimuth = Complex.arg ⟨p.x, p.y⟩ := by
  have hpi : (piDiv180 : ℝ) ≠ 0 := by
    rw [← one_mul piDiv180, ← deg2rad, deg2rad_real]
    positivity
  rw [deg2rad, Position.orientation, div_mul_cancel₀ _ hpi]
  rfl

theorem length_real (p : Position ℝ) : p.length = ‖(⟨p.x, p.y⟩ : ℂ)‖ := by
  rw [Complex.norm_def, Complex.normSq_mk]
  rfl

/-! ## Unit vectors -/

/-- The unit vector in the direction `angle`. -/
noncomputable def unit (angle : ℝ) : ℂ := Complex.exp (angle * Complex.I)

@[simp] theorem unit_zero : unit 0 = 1 := by
  simp [unit]

theorem unit_add (a b : ℝ) : unit (a + b) = unit a * unit b := by
  rw [unit, unit, unit, ← Complex.exp_add]
  push_cast
  rw [add_mul]

theorem unit_neg (a : ℝ) : unit (-a) = (unit a)⁻¹ := by
  rw [unit, unit, ← Complex.exp_neg]
  push_cast
  rw [neg_mul]

theorem unit_sub (a b : ℝ) : unit (a - b) = unit a / unit b := by
  rw [sub_eq_add_neg, unit_add, unit_neg, div_eq_mul_inv]

@[simp] theorem norm_unit (a : ℝ) : ‖unit a‖ = 1 := Complex.norm_exp_ofReal_mul_I a

@[simp] theorem unit_ne_zero (a : ℝ) : unit a ≠ 0 := Complex.exp_ne_zero _

theorem unit_eq (a : ℝ) : unit a = ⟨Real.cos a, Real.sin a⟩ :=
  Complex.ext (Complex.exp_ofReal_mul_I_re a) (Complex.exp_ofReal_mul_I_im a)

@[simp] theorem unit_re (a : ℝ) : (unit a).re = Real.cos a := by rw [unit_eq]

@[simp] theorem unit_im (a : ℝ) : (unit a).im = Real.sin a := by rw [unit_eq]

theorem unit_eq_unit_iff {a b : ℝ} : unit a = unit b ↔ ∃ n : ℤ, a = b + n * (2 * Real.pi) := by
  rw [unit, unit, Complex.exp_eq_exp_iff_exists_int]
  refine exists_congr fun n => ⟨fun h => ?_, fun h => ?_⟩
  · have him := congrArg Complex.im h
    simpa using him
  · rw [h]
    push_cast
    ring

theorem sin_eq_of_unit_eq {a b : ℝ} (h : unit a = unit b) : Real.sin a = Real.sin b := by
  rw [← unit_im, h, unit_im]

/-- A direction as a combination of two others. -/
theorem sin_mul_unit (a b x : ℝ) :
    Real.sin (b - x) * unit a + Real.sin (x - a) * unit b = Real.sin (b - a) * unit x := by
  simp only [unit_eq, Real.sin_sub]
  apply Complex.ext
  · simp only [Complex.add_re, Complex.re_ofReal_mul]
    ring
  · simp only [Complex.add_im, Complex.im_ofReal_mul]
    ring

/-- Wrapping an angle leaves out full turns only. -/
theorem unit_wrapTwoPi (a : ℝ) : unit (wrapTwoPi a) = unit a := by
  obtain ⟨n, hn⟩ := wrapTwoPi_turns a
  exact unit_eq_unit_iff.2 ⟨n, hn⟩

/-- A wrapped angle depends on the direction only. -/
theorem wrapTwoPi_congr {a b : ℝ} (h : unit a = unit b) : wrapTwoPi a = wrapTwoPi b := by
  obtain ⟨n, hn⟩ := unit_eq_unit_iff.1 h
  rw [wrapTwoPi_eq, wrapTwoPi_eq]
  exact fwrap_congr Real.two_pi_pos hn

/-- A number is its length times its direction. -/
theorem norm_mul_unit_arg (z : ℂ) : ‖z‖ * unit z.arg = z := Complex.norm_mul_exp_arg_mul_I z

theorem unit_arg_mul_unit {z : ℂ} (hz : z ≠ 0) (a : ℝ) :
    unit (z * unit a).arg = unit z.arg * unit a := by
  have hlength : (‖z‖ : ℂ) ≠ 0 := Complex.ofReal_ne_zero.2 (norm_ne_zero_iff.2 hz)
  have hsame : (‖z‖ : ℂ) * unit (z * unit a).arg = ‖z‖ * (unit z.arg * unit a) := by
    have h := norm_mul_unit_arg (z * unit a)
    rw [norm_mul, norm_unit, mul_one] at h
    rw [h, ← mul_assoc, norm_mul_unit_arg]
  exact mul_left_cancel₀ hlength hsame

/-! ## Positions -/

namespace Position

def toComplex (p : Position ℝ) : ℂ := ⟨p.x, p.y⟩

variable (p q : Position ℝ)

theorem toComplex_add : (p.add q).toComplex = p.toComplex + q.toComplex := rfl

theorem toComplex_sub : (p.sub q).toComplex = p.toComplex - q.toComplex := rfl

theorem length_eq : p.length = ‖p.toComplex‖ := length_real p

theorem azimuth_eq : deg2rad p.orientation.azimuth = p.toComplex.arg := deg2rad_orientation p

/-- Turning a position is a multiplication. -/
theorem toComplex_rotate (angle : ℝ) :
    (p.rotate angle).toComplex = p.toComplex * unit (deg2rad angle) := by
  have hangle : deg2rad (p.orientation.azimuth + angle) = p.toComplex.arg + deg2rad angle := by
    rw [← azimuth_eq, deg2rad, add_mul]
    rfl
  have hrotate : (p.rotate angle).toComplex =
      p.length * unit (deg2rad (p.orientation.azimuth + angle)) := by
    rw [unit_eq]
    apply Complex.ext
    · rw [Complex.re_ofReal_mul]
      rfl
    · rw [Complex.im_ofReal_mul]
      rfl
  rw [hrotate, hangle, unit_add, length_eq, ← mul_assoc, norm_mul_unit_arg]

end Position

/-! ## Directions -/

/-- The unit vector in the direction of an orientation. -/
noncomputable def Orientation.unit (o : Orientation ℝ) : ℂ := Ssr.unit (deg2rad o.azimuth)

@[simp] theorem Orientation.norm_unit (o : Orientation ℝ) : ‖o.unit‖ = 1 := Ssr.norm_unit _

theorem Orientation.unit_rotate (o : Orientation ℝ) (angle : ℝ) :
    (o.rotate angle).unit = o.unit * Ssr.unit (deg2rad angle) := by
  rw [unit, rotate, deg2rad, add_mul, unit_add]
  rfl

theorem DirectionalPoint.toComplex_transform (a t : DirectionalPoint ℝ) :
    (a.transform t).position.toComplex =
      a.position.toComplex * t.orientation.unit + t.position.toComplex := by
  rw [transform, Position.toComplex_add, Position.toComplex_rotate, Orientation.unit]

theorem DirectionalPoint.unit_transform (a t : DirectionalPoint ℝ) :
    (a.transform t).orientation.unit = a.orientation.unit * t.orientation.unit :=
  Orientation.unit_rotate _ _

theorem unit_angle_eq (a b : Orientation ℝ) : unit (angle a b) = a.unit / b.unit := by
  rw [angle, deg2rad, sub_mul, unit_sub]
  rfl

theorem unit_angleOf (p : Position ℝ) (o : Orientation ℝ) :
    unit (angleOf p o) = unit p.toComplex.arg / o.unit := by
  rw [angleOf, unit_angle_eq, Orientation.unit, Position.azimuth_eq]

/-- The inner product of two vectors of the plane. -/
noncomputable def innerProduct (z w : ℂ) : ℝ := z.re * w.re + z.im * w.im

theorem innerProduct_eq (z w : ℂ) : innerProduct z w = (z * (starRingEnd ℂ) w).re := by
  simp [innerProduct]

theorem innerProduct_mul_mul (z w u : ℂ) :
    innerProduct (z * u) (w * u) = innerProduct z w * ‖u‖ ^ 2 := by
  rw [Complex.sq_norm, Complex.normSq_apply, innerProduct, innerProduct, Complex.mul_re,
    Complex.mul_im, Complex.mul_re, Complex.mul_im]
  ring

/-- A projection, by way of the angle between the two directions. -/
theorem norm_mul_cos_angleOf (p : Position ℝ) (o : Orientation ℝ) :
    ‖p.toComplex‖ * Real.cos (angleOf p o) = innerProduct p.toComplex o.unit := by
  have hdiv : ‖p.toComplex‖ * unit (angleOf p o) = p.toComplex * (starRingEnd ℂ) o.unit := by
    have hconj : (o.unit)⁻¹ = (starRingEnd ℂ) o.unit := Complex.inv_eq_conj o.norm_unit
    rw [unit_angleOf, ← mul_div_assoc, norm_mul_unit_arg, div_eq_mul_inv, hconj]
  rw [innerProduct_eq, ← hdiv, Complex.re_ofReal_mul, unit_re]

/-- The distance from a plane is an inner product with the normal vector. -/
theorem DirectionalPoint.planeToPointDistance_eq (a : DirectionalPoint ℝ) (point : Position ℝ) :
    a.planeToPointDistance point =
      innerProduct (point.toComplex - a.position.toComplex) a.orientation.unit := by
  have hcos : CMath.cos (angle a.orientation (point.sub a.position).orientation) =
      Real.cos (angleOf (point.sub a.position) a.orientation) := by
    have hneg : angle a.orientation (point.sub a.position).orientation =
        -angleOf (point.sub a.position) a.orientation := by
      rw [angleOf, angle, angle, deg2rad, deg2rad, ← neg_mul, neg_sub]
    rw [hneg]
    exact Real.cos_neg _
  rw [planeToPointDistance, Position.length_eq, hcos, norm_mul_cos_angleOf, Position.toComplex_sub]

end Ssr
