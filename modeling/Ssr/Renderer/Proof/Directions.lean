import Ssr.Apf.Fade
import Ssr.Apf.Proof.Input
import Ssr.Renderer.BinauralProcess
import Ssr.Renderer.BrsProcess
import Ssr.Renderer.Proof.Motion

/-!
# Which filters are taken

The filters of the binaural renderer and of the BRS renderer have been measured all around, and the
index rounds a direction to the nearest one of them (`nearest_filters`). The direction of a source
depends on how it lies relative to the listener, up to full turns; so if the listener and all sources
are moved together, the binaural renderer does not notice it (`run_transform`).
-/

set_option autoImplicit false

namespace Ssr

open Apf Conv Lib

/-! ## The nearest direction -/

/-- One of `count` directions in degrees, after some full turns. -/
noncomputable def measured (count : ℕ) (index turns : ℤ) : ℝ :=
  index * (360 / count) + turns * 360

/-- The direction number `index` of `count` is as near as any other one. -/
def Nearest (count index : ℕ) (direction : ℝ) : Prop :=
  index < count ∧ ∃ turns : ℤ, ∀ other turns' : ℤ,
    |direction - measured count index turns| ≤ |direction - measured count other turns'|

/-- No whole number is nearer than one that is not farther than one half. -/
theorem abs_sub_le_abs_sub {x : ℝ} {a : ℤ} (h : |x - a| ≤ 1 / 2) (b : ℤ) : |x - a| ≤ |x - b| := by
  by_cases hab : a = b
  · rw [hab]
  have hone : (1 : ℝ) ≤ |(a : ℝ) - b| := by
    have hle : 1 ≤ |a - b| := Int.one_le_abs (sub_ne_zero.2 hab)
    exact_mod_cast hle
  have htriangle : |(a : ℝ) - b| ≤ |a - x| + |x - b| := abs_sub_le _ _ _
  rw [abs_sub_comm (a : ℝ) x] at htriangle
  linarith

/-- Rounding, with wrapping. -/
theorem nearest_floor_fwrap {count : ℕ} (hcount : 0 < count) (direction : ℝ) :
    Nearest count ⌊fwrap (direction * (count : ℝ) / (360 : ℕ) + 1 / (2 : ℕ)) (count : ℝ)⌋₊
      direction := by
  have hpos : (0 : ℝ) < count := Nat.cast_pos.2 hcount
  obtain ⟨hnonneg, hlt⟩ :=
    fwrap_mem hpos (direction * (count : ℝ) / (360 : ℕ) + 1 / (2 : ℕ))
  obtain ⟨turns, hturns⟩ :=
    fwrap_turns (direction * (count : ℝ) / (360 : ℕ) + 1 / (2 : ℕ)) (count : ℝ)
  refine ⟨(Nat.floor_lt hnonneg).2 hlt, -turns, fun other turns' => ?_⟩
  have hfloor := Nat.floor_le hnonneg
  have hfloor' := Nat.lt_floor_add_one
    (fwrap (direction * (count : ℝ) / (360 : ℕ) + 1 / (2 : ℕ)) (count : ℝ))
  generalize ⌊fwrap (direction * (count : ℝ) / (360 : ℕ) + 1 / (2 : ℕ)) (count : ℝ)⌋₊ = index
    at hfloor hfloor'
  rw [hturns] at hfloor hfloor'
  push_cast at hfloor hfloor'
  -- in units of the distance between two directions
  have hscale : ∀ i m : ℤ, |direction - measured count i m| =
      |direction * count / 360 - (i + m * count : ℤ)| * (360 / count) := by
    intro i m
    have hfactor : |(360 / count : ℝ)| = 360 / count := abs_of_pos (by positivity)
    rw [← hfactor, ← abs_mul, measured]
    congr 1
    push_cast
    field_simp
  have hnear : |direction * count / 360 - ((index : ℤ) + -turns * count : ℤ)| ≤ 1 / 2 := by
    rw [abs_le]
    push_cast
    constructor <;> linarith
  rw [hscale, hscale]
  exact mul_le_mul_of_nonneg_right (abs_sub_le_abs_sub hnear _) (by positivity)

/-- **The nearest filters** are taken: by the binaural renderer for the direction of the source as
the listener sees it, by the BRS renderer for the orientation of the listener. -/
theorem nearest_filters {angles : ℕ} (hangles : 0 < angles) :
    (∀ (state : RenderState ℝ) (data : SourceData ℝ),
      Nearest angles (Binaural.hrtfIndex angles state data)
        ((data.position.sub (Binaural.reference state).position).orientation.azimuth -
          (Binaural.reference state).orientation.azimuth)) ∧
    ∀ azimuth : ℝ, Nearest angles (Brs.brtfIndex angles azimuth) (azimuth - (90 : ℕ)) :=
  ⟨fun _ _ => nearest_floor_fwrap hangles _, fun _ => nearest_floor_fwrap hangles _⟩

theorem nearest_filters_four :
    Nearest 4 (Binaural.hrtfIndex 4 (.new : RenderState ℝ) .new)
        ((Position.sub (SourceData.new (F := ℝ)).position
            (Binaural.reference (.new : RenderState ℝ)).position).orientation.azimuth -
          (Binaural.reference (.new : RenderState ℝ)).orientation.azimuth) ∧
      Nearest 4 (Brs.brtfIndex 4 (90 : ℝ)) (90 - (90 : ℕ)) :=
  ⟨(nearest_filters (by decide)).1 _ _, (nearest_filters (by decide)).2 _⟩

/-! ## Moving the listener together with the scene -/

variable {n k : ℕ}

/-- Move the listener and all sources; the offset is turned. -/
noncomputable def Frame.transform (f : Frame ℝ k) (t : DirectionalPoint ℝ) : Frame ℝ k :=
  { f with
    state := { f.state.transform t with
      referenceOffsetPosition := f.state.referenceOffsetPosition.rotate t.orientation.azimuth }
    data := fun i => (f.data i).transform t }

namespace Binaural

variable (f : Frame ℝ k) (t : DirectionalPoint ℝ) (i : Fin k)

/-- The source as the listener sees it. -/
theorem difference_transform :
    (((f.transform t).data i).position.sub (reference (f.transform t).state).position).toComplex =
      ((f.data i).position.sub (reference f.state).position).toComplex *
        unit (deg2rad t.orientation.azimuth) := by
  show (((f.data i).position.rotate t.orientation.azimuth).add t.position).toComplex -
      (((f.state.referencePosition.rotate t.orientation.azimuth).add t.position).add
        (f.state.referenceOffsetPosition.rotate t.orientation.azimuth)).toComplex =
    ((f.data i).position.toComplex -
      (f.state.referencePosition.add f.state.referenceOffsetPosition).toComplex) * _
  simp only [Position.toComplex_add, Position.toComplex_rotate]
  ring

theorem orientation_transform : (reference (f.transform t).state).orientation =
    (reference f.state).orientation.rotate t.orientation.azimuth := by
  show Orientation.mk (f.state.referenceOrientation.azimuth + t.orientation.azimuth +
      f.state.referenceOffsetOrientation.azimuth) =
    ⟨f.state.referenceOrientation.azimuth + f.state.referenceOffsetOrientation.azimuth +
      t.orientation.azimuth⟩
  rw [add_right_comm]

theorem factors_transform (weightingFactor : ℝ) :
    factors (f.transform t).state ((f.transform t).data i) weightingFactor =
      factors f.state (f.data i) weightingFactor := by
  have hlength : (((f.transform t).data i).position.sub
      (reference (f.transform t).state).position).length =
      ((f.data i).position.sub (reference f.state).position).length := by
    rw [Position.length_eq, Position.length_eq, difference_transform, norm_mul, norm_unit, mul_one]
  rw [factors, factors, hlength]
  rfl

variable {f i}

theorem hrtfIndex_transform (angles : ℕ)
    (hplace : (f.data i).position.toComplex ≠ (reference f.state).position.toComplex) :
    hrtfIndex angles (f.transform t).state ((f.transform t).data i) =
      hrtfIndex angles f.state (f.data i) := by
  have hne : ((f.data i).position.sub (reference f.state).position).toComplex ≠ 0 :=
    sub_ne_zero.2 hplace
  have hunit := unit_sub_rotate hne (difference_transform f t i) (reference f.state).orientation
  rw [← orientation_transform] at hunit
  obtain ⟨turns, hturns⟩ := unit_eq_unit_iff.1 hunit
  rw [deg2rad_real, deg2rad_real] at hturns
  rw [hrtfIndex, hrtfIndex]
  generalize ((((f.transform t).data i).position.sub
    (reference (f.transform t).state).position).orientation.sub
      (reference (f.transform t).state).orientation).azimuth = x at hturns ⊢
  generalize ((((f.data i).position.sub
    (reference f.state).position).orientation.sub (reference f.state).orientation).azimuth) = y
      at hturns ⊢
  have hdegrees : x = y + turns * 360 := by
    have hpi := Real.pi_ne_zero
    field_simp at hturns
    linarith
  obtain rfl | hangles := Nat.eq_zero_or_pos angles
  · simp
  · have hwrap : fwrap (x * (angles : ℝ) / (360 : ℕ) + 1 / (2 : ℕ)) (angles : ℝ) =
        fwrap (y * (angles : ℝ) / (360 : ℕ) + 1 / (2 : ℕ)) (angles : ℝ) := by
      refine fwrap_congr (Nat.cast_pos.2 hangles) (n := turns) ?_
      rw [hdegrees]
      push_cast
      ring
    rw [hwrap]

variable (fftw : Fftw ℝ) (cfg : Config ℝ) (angles : ℕ) (correction : ℝ)

/-- Nothing is noticed in one block. -/
theorem process_transform (fade : CombineChannels.Fade n ℝ) (r : Renderer ℝ n k)
    (hplace : ∀ i, (f.data i).position.toComplex ≠ (reference f.state).position.toComplex) :
    r.process fftw cfg angles correction fade (f.transform t) =
      r.process fftw cfg angles correction fade f := by
  have hblock : blockOf fftw angles correction (f.transform t) r.inputs =
      blockOf fftw angles correction f r.inputs := by
    funext i
    rw [blockOf, blockOf, hrtfIndex_transform t angles (hplace i), factors_transform]
    rfl
  rw [Renderer.process, Renderer.process, hblock]

/-- **Moving the listener and all sources together**, in another way in each block, changes neither
the outputs nor anything else in the renderer. -/
theorem run_transform (fade : CombineChannels.Fade n ℝ) (r : Renderer ℝ n k)
    (fs : List (Frame ℝ k × DirectionalPoint ℝ)) (hplace : ∀ f ∈ fs, ∀ i,
      (f.1.data i).position.toComplex ≠ (reference f.1.state).position.toComplex) :
    (fs.map fun f => f.1.transform f.2).foldl (Renderer.process fftw cfg angles correction fade) r =
      (fs.map Prod.fst).foldl (Renderer.process fftw cfg angles correction fade) r := by
  induction fs generalizing r with
  | nil => rfl
  | cons f fs ih =>
    obtain ⟨hfirst, hrest⟩ := List.forall_mem_cons.1 hplace
    rw [List.map_cons, List.map_cons, List.foldl_cons, List.foldl_cons,
      process_transform f.2 fftw cfg angles correction fade r hfirst]
    exact ih _ hrest

/-- A source on the right of the listener. -/
noncomputable def rightFrame : Frame ℝ 1 :=
  { state := .new, data := fun _ => { SourceData.new with position := ⟨1, 0⟩ }
    samples := fun _ _ => 1 }

theorem run_transform_quarterTurn : ∃ (cfg : Config ℝ) (empty : Conv.Input ℝ),
    Config.load Fftw.exact 8 1 [[1], [2], [3], [4]] = some cfg ∧
    Conv.Input.new 8 (minPartitions 8 1) = some empty ∧
    ∀ outputs,
      [rightFrame.transform WfsRenderer.quarterTurn, rightFrame.transform ⟨⟨0, 2⟩, ⟨0⟩⟩].foldl
          (Renderer.process Fftw.exact cfg 2 1 (CombineChannels.raisedCosineFade 8))
          (.start cfg (fun _ => empty) outputs) =
        [rightFrame, rightFrame].foldl
          (Renderer.process Fftw.exact cfg 2 1 (CombineChannels.raisedCosineFade 8))
          (.start cfg (fun _ => empty) outputs) := by
  refine ⟨_, _, rfl, rfl, fun outputs => ?_⟩
  have hplace : ∀ i, (rightFrame.data i).position.toComplex ≠
      (reference rightFrame.state).position.toComplex := by
    intro i h
    have hre := congrArg Complex.re h
    simp [rightFrame, reference, DirectionalPoint.add, Position.add, Position.toComplex,
      RenderState.new, Position.origin, FloatOps.ofInt] at hre
  refine run_transform Fftw.exact _ 2 1 (CombineChannels.raisedCosineFade 8) _
    [(rightFrame, WfsRenderer.quarterTurn), (rightFrame, ⟨⟨0, 2⟩, ⟨0⟩⟩)] fun f hf => ?_
  have hsame : f.1 = rightFrame := by
    obtain rfl | rfl : f = _ ∨ f = _ := by simpa using hf
    · rfl
    · rfl
  rw [hsame]
  exact hplace

end Binaural

end Ssr
