import Ssr.Renderer.WfsRenderer
import Ssr.Scene.Proof.Geometry

/-!
# Which loudspeakers play a source in wave field synthesis

A source is focused if it is in front of all loudspeakers, so that the waves of a loudspeaker have to
run towards it. Then only those loudspeakers play it that have it between them and the reference,
with negative delays. Otherwise those play it that have it behind them, and no delay is negative
(`drive_point`). No weight is negative, as `select` asserts.
-/

set_option autoImplicit false

namespace Ssr.WfsRenderer

open Apf

variable (state : RenderState ℝ) (out : LoudspeakerOutput ℝ) (data : SourceData ℝ)

/-- From the source to the loudspeaker. -/
noncomputable def toLoudspeaker : ℂ :=
  (loudspeaker state out).position.toComplex - data.position.toComplex

/-- From the source to the reference. -/
noncomputable def toReference : ℂ :=
  (referenceOffset state).position.toComplex - data.position.toComplex

/-- The cosine of the angle at the loudspeaker: it is positive if the source is behind it. -/
noncomputable def cosine : ℝ :=
  Real.cos (angleOf ((loudspeaker state out).position.sub data.position)
    (loudspeaker state out).orientation)

/-- The cosine as an inner product. -/
theorem norm_mul_cosine : ‖toLoudspeaker state out data‖ * cosine state out data =
    innerProduct (toLoudspeaker state out data) (loudspeaker state out).orientation.unit := by
  rw [toLoudspeaker, ← Position.toComplex_sub]
  exact norm_mul_cos_angleOf _ _

/-- The loudspeaker that `_process` looks for. -/
theorem cos_pos_iff (a : ℝ) :
    wrapTwoPi a < Real.pi / 2 ∨ 3 * (Real.pi / 2) < wrapTwoPi a ↔ 0 < Real.cos a := by
  have hpi := Real.pi_pos
  have hcos : Real.cos a = Real.cos (wrapTwoPi a) := by
    rw [← unit_re, ← unit_wrapTwoPi, unit_re]
  obtain ⟨hle, hlt⟩ := wrapTwoPi_mem a
  rw [hcos]
  constructor
  · rintro (h | h)
    · exact Real.cos_pos_of_mem_Ioo ⟨by linarith, h⟩
    · rw [← Real.cos_sub_two_pi]
      exact Real.cos_pos_of_mem_Ioo ⟨by linarith, by linarith⟩
  · intro h
    by_contra hbetween
    rw [not_or, not_lt, not_lt] at hbetween
    exact absurd h (not_lt.2 (Real.cos_nonpos_of_pi_div_two_le_of_le hbetween.1 (by linarith)))

/-- A source is focused if no loudspeaker has it behind. -/
theorem focused_iff {outputs : List (LoudspeakerOutput ℝ)} (hmodel : data.model ≠ .plane) :
    focused state outputs data = true ↔
      ∀ out ∈ outputs, out.model ≠ .subwoofer → cosine state out data ≤ 0 := by
  rw [focused, if_neg hmodel, List.all_eq_true]
  refine forall₂_congr fun out _ => ?_
  have h := cos_pos_iff (angleOf ((loudspeaker state out).position.sub data.position)
    (loudspeaker state out).orientation)
  rw [← not_lt, cosine, ← h]
  simp only [Bool.or_eq_true, decide_eq_true_eq, Bool.not_eq_true', Bool.or_eq_false_iff,
    decide_eq_false_iff_not, Nat.cast_ofNat, ne_eq, not_or]
  exact or_iff_not_imp_left

/-! ## Point sources -/

/-- The square root of the distance, but not less than that of one centimetre. -/
noncomputable def safeRoot (distance : ℝ) : ℝ := Real.sqrt (max distance (1 / 100))

theorem safeRoot_pos (distance : ℝ) : 0 < safeRoot distance :=
  Real.sqrt_pos.2 (lt_max_of_lt_right (by norm_num))

theorem safeRoot_eq (distance : ℝ) :
    (if distance < 1 / ((100 : ℕ) : ℝ) then CMath.sqrt (1 / ((100 : ℕ) : ℝ)) else CMath.sqrt distance) =
      safeRoot distance := by
  rw [safeRoot, Nat.cast_ofNat]
  split
  · rename_i h
    rw [max_eq_right h.le]
    rfl
  · rename_i h
    rw [max_eq_left (not_lt.1 h)]
    rfl

/-- The weight and the delay of a loudspeaker for a point source, in terms of vectors. -/
theorem drivePoint_eq (isFocused : Bool) {model : LoudspeakerModel} (hmodel : model ≠ .subwoofer) :
    drivePoint model isFocused (loudspeaker state out) (referenceOffset state) data.position =
      let distance := ‖toLoudspeaker state out data‖
      if cosine state out data < 0 then
        if isFocused ∧ innerProduct (toLoudspeaker state out data) (toReference state data) < 0 then
          (-(cosine state out data / safeRoot distance), -distance)
        else (0, distance)
      else (cosine state out data / safeRoot distance, distance) := by
  have hlength : ((loudspeaker state out).position.sub data.position).length =
      ‖toLoudspeaker state out data‖ := by
    rw [Position.length_eq, Position.toComplex_sub, toLoudspeaker]
  have hsign : cosine state out data / safeRoot ‖toLoudspeaker state out data‖ < 0 ↔
      cosine state out data < 0 := by
    rw [div_lt_iff₀ (safeRoot_pos _), zero_mul]
  have hinner : ((loudspeaker state out).position.sub data.position).x *
        ((referenceOffset state).position.sub data.position).x +
      ((loudspeaker state out).position.sub data.position).y *
        ((referenceOffset state).position.sub data.position).y =
      innerProduct (toLoudspeaker state out data) (toReference state data) := rfl
  rw [drivePoint, if_neg hmodel]
  dsimp only
  rw [hlength, safeRoot_eq, hinner]
  change (if cosine state out data / safeRoot ‖toLoudspeaker state out data‖ < 0 then
    if isFocused = true then _ else _ else _) = _
  simp only [hsign]
  by_cases hneg : cosine state out data < 0
  · rw [if_pos hneg, if_pos hneg]
    cases isFocused with
    | false => simp
    | true => simp [cosine]; rfl
  · rw [if_neg hneg, if_neg hneg]
    rfl

/-! ## All weights -/

theorem driveModel_nonneg (isFocused : Bool) : 0 ≤ (driveModel state out data isFocused).1 := by
  have hsqrt : ∀ x : ℝ, 0 ≤ 1 / CMath.sqrt x := fun x => one_div_nonneg.2 (Real.sqrt_nonneg x)
  unfold driveModel
  split
  · by_cases hmodel : out.model = .subwoofer
    · rw [drivePoint, if_pos hmodel]
      dsimp only
      split
      · exact hsqrt _
      · exact hsqrt _
    · rw [drivePoint_eq _ _ _ _ hmodel]
      dsimp only
      have hroot := (safeRoot_pos ‖toLoudspeaker state out data‖).le
      split
      · rename_i hneg
        split
        · exact neg_nonneg.2 (div_nonpos_of_nonpos_of_nonneg hneg.le hroot)
        · exact le_rfl
      · rename_i hneg
        exact div_nonneg (not_lt.1 hneg) hroot
  · rw [drivePlane]
    split
    · exact zero_le_one
    · dsimp only
      split
      · exact le_rfl
      · rename_i hneg
        exact not_lt.1 hneg
  · exact zero_le_one

/-- The attenuation by the distance from the reference. -/
noncomputable def attenuation : ℝ :=
  let half : ℝ := 1 / (2 : ℕ)
  if data.model = .plane then half / state.amplitudeReferenceDistance
  else half / max ‖toReference state data‖ half

variable {data} in
theorem source_length : (data.position.sub (referenceOffset state).position).length =
    ‖toReference state data‖ := by
  rw [Position.length_eq, Position.toComplex_sub, toReference, norm_sub_rev]

theorem drive_eq (source : Source ℝ) : drive state out source =
    ((driveModel state out source.data source.focused).1 * attenuation state source.data *
      source.weightingFactor.current * out.weight,
      (driveModel state out source.data source.focused).2) := by
  rw [drive, attenuation]
  dsimp only
  rw [source_length]
  split <;> rfl

theorem attenuation_pos (h : data.model = .plane → 0 < state.amplitudeReferenceDistance) :
    0 < attenuation state data := by
  rw [attenuation]
  split
  · rename_i hmodel
    exact div_pos (by norm_num) (h hmodel)
  · exact div_pos (by norm_num) (lt_max_of_lt_right (by norm_num))

/-- The assertions fail only for a negative gain. -/
theorem asserted_iff (source : Source ℝ) : Asserted state out source ↔
    (source.data.model = .plane → 0 < state.amplitudeReferenceDistance) ∧
      ((driveModel state out source.data source.focused).1 = 0 ∨
        0 ≤ source.weightingFactor.current * out.weight) := by
  refine and_congr_right fun h => ?_
  have hpos := attenuation_pos state source.data h
  have hnonneg := driveModel_nonneg state out source.data source.focused
  rw [drive_eq]
  dsimp only
  obtain hzero | hne := hnonneg.eq_or_lt
  · rw [← hzero]
    simp
  · rw [mul_assoc, mul_nonneg_iff_of_pos_left (mul_pos hne hpos), or_iff_right hne.ne']

/-- A loudspeaker that plays a point source: a focused source is in front of it, and between it and the
reference; another one is behind it. -/
def Plays (isFocused : Bool) : Prop :=
  if isFocused then cosine state out data < 0 ∧
    innerProduct (toLoudspeaker state out data) (toReference state data) < 0
  else 0 < cosine state out data

open Classical in
/-- What `drive` gives for a point source. -/
theorem drive_of_gain {outputs : List (LoudspeakerOutput ℝ)} (hout : out ∈ outputs)
    (hmodel : out.model ≠ .subwoofer) {source : Source ℝ} (hpoint : source.data.model = .point)
    (hfocused : source.focused = focused state outputs source.data) : drive state out source =
      let distance := ‖toLoudspeaker state out source.data‖
      if Plays state out source.data source.focused then
        (|cosine state out source.data| / safeRoot distance *
          (1 / 2 / max ‖toReference state source.data‖ (1 / 2)) * source.weightingFactor.current *
            out.weight,
          if source.focused then -distance else distance)
      else (0, distance) := by
  have hplane : source.data.model ≠ .plane := by simp [hpoint]
  have hcosine : source.focused = true → cosine state out source.data ≤ 0 := by
    intro h
    rw [hfocused] at h
    exact (focused_iff state source.data hplane).1 h out hout hmodel
  have hdrive : driveModel state out source.data source.focused =
      drivePoint out.model source.focused (loudspeaker state out) (referenceOffset state)
        source.data.position := by
    rw [driveModel, hpoint]
  rw [drive_eq, hdrive, drivePoint_eq _ _ _ _ hmodel, attenuation, if_neg hplane]
  dsimp only
  rw [Nat.cast_ofNat]
  obtain hneg | hzero | hpos := lt_trichotomy (cosine state out source.data) 0
  · rw [if_pos hneg, abs_of_neg hneg]
    cases hf : source.focused with
    | false => simp [Plays, hneg.le]
    | true =>
      simp only [Plays, hneg, true_and, if_true]
      split
      · rw [neg_div]
      · simp
  · simp [Plays, hzero]
  · cases hf : source.focused with
    | false => simp [Plays, hpos, hpos.not_gt, abs_of_pos hpos]
    | true => exact absurd (hcosine hf) (not_le.2 hpos)

open Classical in
/-- **The selection of the loudspeakers** for a point source. The delays have the same sign for all
loudspeakers. -/
theorem drive_point {outputs : List (LoudspeakerOutput ℝ)} (hout : out ∈ outputs)
    (hmodel : out.model ≠ .subwoofer) {source : Source ℝ} (hpoint : source.data.model = .point)
    (hfocused : source.focused = focused state outputs source.data)
    (hgain : 0 ≤ source.weightingFactor.current * out.weight) :
    Asserted state out source ∧ (drive state out source =
      let distance := ‖toLoudspeaker state out source.data‖
      if Plays state out source.data source.focused then
        (|cosine state out source.data| / safeRoot distance *
          (1 / 2 / max ‖toReference state source.data‖ (1 / 2)) * source.weightingFactor.current *
            out.weight,
          if source.focused then -distance else distance)
      else (0, distance)) ∧
      (0 < source.weightingFactor.current * out.weight →
        ((drive state out source).1 ≠ 0 ↔ Plays state out source.data source.focused)) := by
  have hdrive := drive_of_gain state out hout hmodel hpoint hfocused
  refine ⟨(asserted_iff state out source).2 ⟨fun h => ?_, .inr hgain⟩, hdrive, fun hpos => ?_⟩
  · rw [hpoint] at h
    cases h
  rw [hdrive]
  dsimp only
  by_cases hplays : Plays state out source.data source.focused
  · have hcosine : cosine state out source.data ≠ 0 := by
      unfold Plays at hplays
      split at hplays
      · exact hplays.1.ne
      · exact hplays.ne'
    have hroot := safeRoot_pos ‖toLoudspeaker state out source.data‖
    have hattenuation : (0 : ℝ) < 1 / 2 / max ‖toReference state source.data‖ (1 / 2) :=
      div_pos (by norm_num) (lt_max_of_lt_right (by norm_num))
    simp only [hplays, if_true, iff_true]
    rw [mul_assoc]
    exact (mul_pos (mul_pos (div_pos (abs_pos.2 hcosine) hroot) hattenuation) hpos).ne'
  · simp [hplays]
/-- A loudspeaker to the right of the origin that looks at it. -/
noncomputable def facing : LoudspeakerOutput ℝ :=
  { position := ⟨1, 0⟩, orientation := ⟨180⟩, model := .normal, weight := 1, delay := 0,
    connectTo := none }

/-- A point two metres to the right of the origin, which is behind that loudspeaker. -/
noncomputable def behind : SourceData ℝ := { SourceData.new with position := ⟨(2 : ℕ), 0⟩ }

theorem toLoudspeaker_behind : toLoudspeaker .new facing behind = -1 := by
  rw [toLoudspeaker, loudspeaker, DirectionalPoint.toComplex_transform]
  apply Complex.ext <;>
    norm_num [reference, RenderState.new, behind, Position.origin, Orientation.zero,
      Orientation.unit, Position.toComplex, FloatOps.ofInt, facing, deg2rad]

theorem cosine_behind : cosine .new facing behind = 1 := by
  have hnorm := norm_mul_cosine .new facing behind
  have hunit : (loudspeaker (.new : RenderState ℝ) facing).orientation.unit = -1 := by
    have hturn : unit (deg2rad (180 : ℝ)) = -1 := by
      rw [deg2rad_real, show (180 : ℝ) * (Real.pi / 180) = Real.pi by ring, unit,
        Complex.exp_pi_mul_I]
    rw [loudspeaker, DirectionalPoint.unit_transform, Orientation.unit, facing, hturn]
    simp [reference, RenderState.new, Orientation.zero, Orientation.unit, FloatOps.ofInt, deg2rad]
  rw [toLoudspeaker_behind, hunit, norm_neg, norm_one, one_mul] at hnorm
  simpa [innerProduct] using hnorm

theorem toReference_behind : toReference .new behind = -2 := by
  rw [toReference, referenceOffset, DirectionalPoint.toComplex_transform]
  apply Complex.ext <;>
    norm_num [reference, RenderState.new, behind, Position.origin, Orientation.zero,
      Orientation.unit, Position.toComplex, FloatOps.ofInt, deg2rad]

theorem focused_behind : focused .new [facing] behind = false := by
  by_contra hfocused
  have hle := (focused_iff .new behind (by simp [behind, SourceData.new])).1
    (Bool.not_eq_false _ ▸ hfocused) facing (List.mem_singleton_self _) (by simp [facing])
  rw [cosine_behind] at hle
  exact absurd hle (by norm_num)

/-- A source there that has not been played yet. -/
noncomputable def behindSource : Source ℝ :=
  { data := behind, weightingFactor := .new 1, focused := focused .new [facing] behind
    delayline :=
      { blockSize := 1, maxDelay := 0, size := 2, data := fun _ => 0, dataCirculator := 0
        blockCirculator := 0, initialDelay := 0 } }

theorem plays_behind : Plays .new facing behindSource.data behindSource.focused := by
  rw [behindSource, focused_behind, Plays, cosine_behind]
  simp

theorem drive_behindSource : drive .new facing behindSource = (1 / 4, 1) := by
  rw [drive_of_gain .new facing (List.mem_singleton_self _) (by simp [facing]) rfl rfl]
  dsimp only
  rw [if_pos plays_behind, behindSource, toLoudspeaker_behind, toReference_behind, focused_behind,
    cosine_behind]
  norm_num [safeRoot, facing, BlockParameter.new]

theorem drive_point_behind : Asserted .new facing behindSource ∧
    drive .new facing behindSource = (1 / 4, 1) ∧ (drive .new facing behindSource).1 ≠ 0 := by
  have hgain : 0 < behindSource.weightingFactor.current * facing.weight := by
    simp [behindSource, facing, BlockParameter.new]
  obtain ⟨hasserted, -, hiff⟩ := drive_point .new facing (List.mem_singleton_self _)
    (by simp [facing]) (show behindSource.data.model = .point from rfl) rfl hgain.le
  exact ⟨hasserted, drive_behindSource, (hiff hgain).2 plays_behind⟩

end Ssr.WfsRenderer
