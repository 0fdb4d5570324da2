import Ssr.Renderer.AapRenderer
import Ssr.Renderer.Proof.PanningGains
import Ssr.Renderer.Proof.WfsDrive

/-!
# Moving the listener together with the scene

If the reference and the sources are moved in the same way, then everything stays the same relative to
the reference, and the loudspeakers move with the reference. So no renderer may notice it: the weights
and delays are the same (`drive_transform`, `weight_transform`, `gainAt_transform`). The angles are
not the same numbers, since `atan2` jumps.

In wave field synthesis the reference is moved by its offset, and not the offset by the reference; so
there the two have to commute.
-/

set_option autoImplicit false

namespace Ssr

open Apf Lib

/-- Move the reference. -/
noncomputable def RenderState.transform (state : RenderState ℝ) (t : DirectionalPoint ℝ) :
    RenderState ℝ :=
  { state with
    referencePosition := (state.referencePosition.rotate t.orientation.azimuth).add t.position
    referenceOrientation := state.referenceOrientation.rotate t.orientation.azimuth }

/-- Move a source. -/
noncomputable def SourceData.transform (data : SourceData ℝ) (t : DirectionalPoint ℝ) :
    SourceData ℝ :=
  { data with
    position := (data.position.rotate t.orientation.azimuth).add t.position
    orientation := data.orientation.rotate t.orientation.azimuth }

variable (state : RenderState ℝ) (data : SourceData ℝ) (t : DirectionalPoint ℝ)

theorem toComplex_move (p : Position ℝ) :
    ((p.rotate t.orientation.azimuth).add t.position).toComplex =
      p.toComplex * t.orientation.unit + t.position.toComplex := by
  rw [Position.toComplex_add, Position.toComplex_rotate, Orientation.unit]

/-- Differences are turned. -/
theorem move_sub_move (p q : Position ℝ) :
    ((p.rotate t.orientation.azimuth).add t.position).toComplex -
        ((q.rotate t.orientation.azimuth).add t.position).toComplex =
      (p.toComplex - q.toComplex) * t.orientation.unit := by
  rw [toComplex_move, toComplex_move]
  ring

theorem transform_transform (a b : DirectionalPoint ℝ) :
    (a.transform (b.transform t)).position.toComplex =
        (a.transform b).position.toComplex * t.orientation.unit + t.position.toComplex ∧
      (a.transform (b.transform t)).orientation =
        (a.transform b).orientation.rotate t.orientation.azimuth := by
  constructor
  · rw [DirectionalPoint.toComplex_transform, DirectionalPoint.toComplex_transform,
      DirectionalPoint.toComplex_transform, DirectionalPoint.unit_transform]
    ring
  · simp only [DirectionalPoint.transform, Orientation.rotate, add_assoc]

/-- A direction as seen by someone who is turned with it. -/
theorem unit_sub_rotate {p q : Position ℝ} (hne : p.toComplex ≠ 0) {angle : ℝ}
    (h : q.toComplex = p.toComplex * unit (deg2rad angle)) (o : Orientation ℝ) :
    unit (deg2rad (q.orientation.sub (o.rotate angle)).azimuth) =
      unit (deg2rad (p.orientation.sub o).azimuth) := by
  have hunit : ∀ (p : Position ℝ) (o : Orientation ℝ),
      unit (deg2rad (p.orientation.sub o).azimuth) = unit p.toComplex.arg / o.unit := unit_angleOf
  rw [hunit, hunit, h, unit_arg_mul_unit hne, Orientation.unit_rotate]
  exact mul_div_mul_right _ _ (unit_ne_zero _)

theorem angle_rotate (a b : Orientation ℝ) (x : ℝ) : angle (a.rotate x) (b.rotate x) = angle a b := by
  rw [angle, angle, Orientation.rotate, Orientation.rotate, add_sub_add_right_eq_sub]

/-! ## Wave field synthesis -/

namespace WfsRenderer

variable (out : LoudspeakerOutput ℝ)

theorem toLoudspeaker_transform : toLoudspeaker (state.transform t) out (data.transform t) =
    toLoudspeaker state out data * t.orientation.unit := by
  have h := (transform_transform t ⟨out.position, out.orientation⟩ (reference state)).1
  rw [toLoudspeaker, toLoudspeaker, loudspeaker, show reference (state.transform t) =
    (reference state).transform t from rfl, h, SourceData.transform, toComplex_move, loudspeaker]
  ring

/-- The offset of the reference, as a motion. -/
def offset (state : RenderState ℝ) : DirectionalPoint ℝ :=
  ⟨state.referenceOffsetPosition, state.referenceOffsetOrientation⟩

/-- It makes no difference which of the two motions comes first. -/
def Commute (a b : DirectionalPoint ℝ) : Prop :=
  (a.transform b).position.toComplex = (b.transform a).position.toComplex

theorem commute_zero {b : DirectionalPoint ℝ} (hposition : b.position.toComplex = 0)
    (horientation : b.orientation.unit = 1) (a : DirectionalPoint ℝ) : Commute a b := by
  rw [Commute, DirectionalPoint.toComplex_transform, DirectionalPoint.toComplex_transform,
    hposition, horientation]
  ring

variable {t}

theorem toReference_transform (hcommute : Commute t (offset state)) :
    toReference (state.transform t) (data.transform t) =
      toReference state data * t.orientation.unit := by
  rw [Commute, DirectionalPoint.toComplex_transform, DirectionalPoint.toComplex_transform,
    offset] at hcommute
  have hreference : ∀ state, (referenceOffset state).position.toComplex =
      state.referencePosition.toComplex * (offset state).orientation.unit +
        (offset state).position.toComplex := fun _ => DirectionalPoint.toComplex_transform _ _
  rw [toReference, toReference, hreference, hreference, RenderState.transform, SourceData.transform,
    toComplex_move, toComplex_move, offset, offset]
  linear_combination hcommute

variable {data out}

/-- The inner products and lengths are those from before. -/
theorem cosine_transform (hplace : toLoudspeaker state out data ≠ 0) :
    cosine (state.transform t) out (data.transform t) = cosine state out data := by
  have hlength : ‖toLoudspeaker state out data‖ ≠ 0 := norm_ne_zero_iff.2 hplace
  have hnormal : (loudspeaker (state.transform t) out).orientation.unit =
      (loudspeaker state out).orientation.unit * t.orientation.unit := by
    have h := (transform_transform t ⟨out.position, out.orientation⟩ (reference state)).2
    rw [loudspeaker, show reference (state.transform t) = (reference state).transform t from rfl, h,
      Orientation.unit_rotate, loudspeaker]
    rfl
  have h := norm_mul_cosine (state.transform t) out (data.transform t)
  rw [toLoudspeaker_transform, norm_mul, Orientation.norm_unit, mul_one, hnormal,
    innerProduct_mul_mul, Orientation.norm_unit, one_pow, mul_one, ← norm_mul_cosine] at h
  exact mul_left_cancel₀ hlength h

theorem focused_transform {outputs : List (LoudspeakerOutput ℝ)}
    (hplace : ∀ out ∈ outputs, toLoudspeaker state out data ≠ 0) :
    focused (state.transform t) outputs (data.transform t) = focused state outputs data := by
  by_cases hmodel : data.model = .plane
  · rw [focused, focused, if_pos hmodel, if_pos (show (data.transform t).model = .plane from hmodel)]
  · rw [Bool.eq_iff_iff, focused_iff state data hmodel,
      focused_iff (state.transform t) (data.transform t) hmodel]
    refine forall₂_congr fun out hout => ?_
    rw [cosine_transform state (hplace out hout)]

theorem loudspeaker_length (data : SourceData ℝ) :
    ((loudspeaker state out).position.sub (referenceOffset state).position).length =
      ‖toLoudspeaker state out data - toReference state data‖ := by
  rw [Position.length_eq, Position.toComplex_sub, toReference, toLoudspeaker, sub_sub_sub_cancel_right]

theorem drivePlane_eq (model : LoudspeakerModel) :
    drivePlane model (loudspeaker state out) (referenceOffset state)
        ⟨data.position, data.orientation⟩ =
      if model = .subwoofer then
        (1, innerProduct (toReference state data) data.orientation.unit -
          ‖toLoudspeaker state out data - toReference state data‖)
      else
        let weightingFactor :=
          CMath.cos (angle data.orientation (loudspeaker state out).orientation)
        if weightingFactor < 0 then (0, 0)
        else (weightingFactor, innerProduct (toLoudspeaker state out data) data.orientation.unit) := by
  rw [drivePlane, loudspeaker_length state data, DirectionalPoint.planeToPointDistance_eq,
    DirectionalPoint.planeToPointDistance_eq]
  rfl

/-- The part of the drive that depends on the model of the source. -/
theorem driveModel_transform (hplace : toLoudspeaker state out data ≠ 0)
    (hcommute : Commute t (offset state)) (isFocused : Bool) :
    driveModel (state.transform t) out (data.transform t) isFocused =
      driveModel state out data isFocused := by
  have hz := toLoudspeaker_transform state data t out
  have hρ := toReference_transform state data hcommute
  have hunit : ∀ z : ℂ, ‖z * t.orientation.unit‖ = ‖z‖ := fun z => by
    rw [norm_mul, Orientation.norm_unit, mul_one]
  have hinner : ∀ z w : ℂ, innerProduct (z * t.orientation.unit) (w * t.orientation.unit) =
      innerProduct z w := fun z w => by
    rw [innerProduct_mul_mul, Orientation.norm_unit, one_pow, mul_one]
  have hmodel : (data.transform t).model = data.model := rfl
  rw [driveModel, driveModel, hmodel]
  cases data.model with
  | point =>
    by_cases hsubwoofer : out.model = .subwoofer
    · dsimp only
      rw [drivePoint, drivePoint, if_pos hsubwoofer, if_pos hsubwoofer,
        source_length, source_length, loudspeaker_length _ (data.transform t),
        loudspeaker_length _ data, hz, hρ, ← sub_mul, hunit, hunit]
    · dsimp only
      rw [drivePoint_eq _ _ _ _ hsubwoofer, drivePoint_eq _ _ _ _ hsubwoofer,
        cosine_transform state hplace, hz, hρ, hunit, hinner]
  | plane =>
    have hnormal : (data.transform t).orientation.unit =
        data.orientation.unit * t.orientation.unit := Orientation.unit_rotate _ _
    have hangle : angle (data.transform t).orientation
        (loudspeaker (state.transform t) out).orientation =
        angle data.orientation (loudspeaker state out).orientation := by
      rw [loudspeaker, show reference (state.transform t) = (reference state).transform t from rfl,
        (transform_transform t _ (reference state)).2]
      exact angle_rotate _ _ _
    dsimp only
    rw [drivePlane_eq, drivePlane_eq, hangle, hnormal, hz, hρ, ← sub_mul, hunit, hinner, hinner]
  | unknown => rfl
  | line => rfl
  | directional => rfl
  | extended => rfl

/-- **Wave field synthesis** does not notice a motion that commutes with the offset: the source is
focused as before, and all loudspeakers are driven as before. -/
theorem drive_transform {outputs : List (LoudspeakerOutput ℝ)} (source : Source ℝ)
    (hplace : ∀ out ∈ outputs, toLoudspeaker state out source.data ≠ 0)
    (hcommute : Commute t (offset state)) :
    focused (state.transform t) outputs (source.data.transform t) =
        focused state outputs source.data ∧
      ∀ out ∈ outputs, drive (state.transform t) out
          { source with data := source.data.transform t } = drive state out source := by
  refine ⟨focused_transform state hplace, fun out hout => ?_⟩
  have hattenuation : attenuation (state.transform t) (source.data.transform t) =
      attenuation state source.data := by
    rw [attenuation, attenuation, toReference_transform state _ hcommute, norm_mul,
      Orientation.norm_unit, mul_one]
    rfl
  rw [drive_eq, drive_eq]
  dsimp only
  rw [driveModel_transform state (hplace out hout) hcommute, hattenuation]

/-- A motion by a quarter of a turn and one metre. -/
noncomputable def quarterTurn : DirectionalPoint ℝ := ⟨⟨1, 0⟩, ⟨90⟩⟩

theorem drive_transform_quarterTurn :
    focused (RenderState.new.transform quarterTurn) [facing]
        (behindSource.data.transform quarterTurn) = false ∧
      drive (RenderState.new.transform quarterTurn) facing
        { behindSource with data := behindSource.data.transform quarterTurn } = (1 / 4, 1) := by
  have hplace : ∀ out ∈ [facing], toLoudspeaker .new out behindSource.data ≠ 0 := by
    intro out hout
    rw [List.mem_singleton.1 hout]
    exact ne_of_eq_of_ne toLoudspeaker_behind (by norm_num)
  have hcommute : Commute quarterTurn (offset .new) := by
    refine commute_zero ?_ ?_ _
    · apply Complex.ext <;>
        simp [offset, RenderState.new, Position.origin, Position.toComplex, FloatOps.ofInt]
    · simp [offset, RenderState.new, Orientation.zero, Orientation.unit, FloatOps.ofInt, deg2rad]
  obtain ⟨hfocused, hdrive⟩ := drive_transform .new behindSource hplace hcommute
  exact ⟨hfocused.trans focused_behind,
    (hdrive facing (List.mem_singleton_self _)).trans drive_behindSource⟩

end WfsRenderer

/-! ## Ambisonics amplitude panning -/

namespace AapRenderer

variable {n : ℕ} (r : AapRenderer) (out : LoudspeakerOutput ℝ)

/-- The panning function of half the angle between loudspeaker and source. -/
theorem panning_real (alpha0 θ : ℝ) : r.panning alpha0 θ =
    if r.inPhaseRendering then Real.cos ((alpha0 - θ) / 2) ^ (2 * r.ambisonicsOrder)
    else if |Real.sin ((alpha0 - θ) / 2)| < 1 / 10000 then 1
    else Real.sin ((2 * r.ambisonicsOrder + 1 : ℕ) * ((alpha0 - θ) / 2)) /
      ((2 * r.ambisonicsOrder + 1 : ℕ) * Real.sin ((alpha0 - θ) / 2)) := by
  rw [panning]
  push_cast
  rw [mul_div_assoc]
  rfl

/-- Both panning functions have a period of a full turn, although they are computed from half the
angle. -/
theorem panning_congr (alpha0 : ℝ) {θ θ' : ℝ} (h : unit θ = unit θ') :
    r.panning alpha0 θ = r.panning alpha0 θ' := by
  obtain ⟨m, rfl⟩ := unit_eq_unit_iff.1 h
  have hhalf : (alpha0 - (θ' + m * (2 * Real.pi))) / 2 = (alpha0 - θ') / 2 - m * Real.pi := by ring
  have hodd : ((2 * r.ambisonicsOrder + 1 : ℕ) : ℝ) * ((alpha0 - θ') / 2 - m * Real.pi) =
      (2 * r.ambisonicsOrder + 1 : ℕ) * ((alpha0 - θ') / 2) -
        ((2 * r.ambisonicsOrder + 1 : ℕ) * m : ℤ) * Real.pi := by
    push_cast
    ring
  have hsign : (-1 : ℝ) ^ ((2 * r.ambisonicsOrder + 1 : ℕ) * m : ℤ) = (-1) ^ m := by
    rw [zpow_mul, zpow_natCast, Odd.neg_one_pow (odd_two_mul_add_one _)]
  have habs : |(-1 : ℝ) ^ m| = 1 := by rw [abs_zpow, abs_neg, abs_one, one_zpow]
  have hsquare : ((-1 : ℝ) ^ m) ^ (2 * r.ambisonicsOrder) = 1 := by
    rw [← Even.pow_abs (even_two_mul _), habs, one_pow]
  have hne : (-1 : ℝ) ^ m ≠ 0 := zpow_ne_zero m (by norm_num)
  rw [panning_real, panning_real, hhalf, hodd, Real.cos_sub_int_mul_pi, Real.sin_sub_int_mul_pi,
    Real.sin_sub_int_mul_pi, hsign, mul_pow, hsquare, one_mul, abs_mul, habs, one_mul,
    mul_left_comm, mul_div_mul_left _ _ hne]

/-- The weight is the same in every block. -/
theorem weight_transform (source : RenderSource ℝ n)
    (hplace : source.data.position.toComplex ≠ state.referencePosition.toComplex) :
    r.weight (state.transform t) out { source with data := source.data.transform t } =
      r.weight state out source := by
  have hdifference : (((source.data.transform t).position.sub
      (state.transform t).referencePosition)).toComplex =
      (source.data.position.sub state.referencePosition).toComplex * t.orientation.unit :=
    move_sub_move t _ _
  have hne : (source.data.position.sub state.referencePosition).toComplex ≠ 0 :=
    sub_ne_zero.2 hplace
  have hlength : ((source.data.transform t).position.sub
      (state.transform t).referencePosition).length =
      (source.data.position.sub state.referencePosition).length := by
    rw [Position.length_eq, Position.length_eq, hdifference, norm_mul, Orientation.norm_unit, mul_one]
  have hangle : unit (angles (state.transform t) out (source.data.transform t).position).2 =
      unit (angles state out source.data.position).2 := by
    exact unit_sub_rotate hne hdifference state.referenceOrientation
  have hpanning : r.panning (angles (state.transform t) out (source.data.transform t).position).1
        (angles (state.transform t) out (source.data.transform t).position).2 =
      r.panning (angles state out source.data.position).1 (angles state out source.data.position).2 :=
    r.panning_congr _ hangle
  rw [weight, weight]
  dsimp only
  rw [hlength, hpanning]
  rfl

end AapRenderer

/-! ## Vector base amplitude panning -/

namespace VbapRenderer

variable {n : ℕ} {outputs : List (LoudspeakerOutput ℝ)}
  {std : SortBy (LoudspeakerEntry.angle (T := ℝ) (n := outputs.length))}

/-- What `Process` keeps, and what the weights depend on but for the direction of the source. -/
structure Same (r q : VbapRenderer outputs) : Prop where
  maxAngle : r.maxAngle = q.maxAngle
  overhangAngle : r.overhangAngle = q.overhangAngle
  loudspeakers : r.sortedLoudspeakers = q.sortedLoudspeakers
  offset : r.referenceOffsetPosition.current = q.referenceOffsetPosition.current

theorem process_overhangAngle (r : VbapRenderer outputs) (state : RenderState ℝ) :
    (r.process std state).overhangAngle = r.overhangAngle := by
  dsimp only [process]
  split
  · dsimp only [updateSections]
    split <;> rfl
  · rfl

theorem Same.process {r q : VbapRenderer outputs} (h : Same r q) :
    Same (r.process std (state.transform t)) (q.process std state) := by
  have hoffset : blockOffset (state.transform t) = blockOffset state := rfl
  refine ⟨?_, ?_, ?_, ?_⟩
  · rw [process_maxAngle, process_maxAngle, h.maxAngle]
  · rw [process_overhangAngle, process_overhangAngle, h.overhangAngle]
  · by_cases hsame : blockOffset state = q.referenceOffsetPosition.current
    · rw [process_unchanged hsame, process_unchanged ((hoffset.trans hsame).trans h.offset.symm),
        h.loudspeakers]
    · rw [process_changed hsame, process_changed fun hr => hsame ((hoffset.symm.trans hr).trans
        h.offset), hoffset, anglesFrom, anglesFrom, tableFrom, tableFrom, h.maxAngle, h.loudspeakers]
  · rw [current_process, current_process, hoffset]

/-- The place from which the directions are seen. -/
noncomputable def listener (state : RenderState ℝ) : ℂ :=
  (blockOffset state).toComplex * state.referenceOrientation.unit + state.referencePosition.toComplex

theorem sourceUnit_transform {p : Position ℝ} (hplace : p.toComplex ≠ listener state) :
    sourceUnit (state.transform t) ((p.rotate t.orientation.azimuth).add t.position) =
      sourceUnit state p := by
  have hframe : (state.transform t).referenceOrientation.unit =
      state.referenceOrientation.unit * t.orientation.unit := Orientation.unit_rotate _ _
  have hsource : ∀ state p, sourceUnit state p =
      unit (p.toComplex - listener state).arg / state.referenceOrientation.unit := fun _ _ => rfl
  have hlistener : listener (state.transform t) =
      listener state * t.orientation.unit + t.position.toComplex := by
    rw [listener, hframe, listener, RenderState.transform, toComplex_move]
    show (blockOffset state).toComplex * _ + _ = _
    ring
  rw [hsource, hsource, hframe, hlistener, toComplex_move, add_sub_add_right_eq_sub, ← sub_mul]
  rw [show t.orientation.unit = unit (deg2rad t.orientation.azimuth) from rfl,
    unit_arg_mul_unit (sub_ne_zero.2 hplace)]
  exact mul_div_mul_right _ _ (unit_ne_zero _)

theorem incidenceAngle_transform (r q : VbapRenderer outputs) {p : Position ℝ}
    (hplace : p.toComplex ≠ listener state) :
    (r.process std (state.transform t)).incidenceAngle (state.transform t)
        ((p.rotate t.orientation.azimuth).add t.position) =
      (q.process std state).incidenceAngle state p := by
  have hunit := (@unit_incidenceAngle _ std r (state.transform t)
    ((p.rotate t.orientation.azimuth).add t.position)).trans
    ((sourceUnit_transform state t hplace).trans (@unit_incidenceAngle _ std q state p).symm)
  rw [incidenceAngle, incidenceAngle, unit_wrapTwoPi, unit_wrapTwoPi] at hunit
  exact wrapTwoPi_congr hunit

/-! ### Runs -/

/-- Move a source in each block. -/
noncomputable def History.transform (h : History ℝ n) (m : ℕ → DirectionalPoint ℝ) : History ℝ n :=
  { h with
    position := fun t => ((h.position t).rotate (m t).orientation.azimuth).add (m t).position }

variable (r : VbapRenderer outputs) (states : ℕ → RenderState ℝ) (m : ℕ → DirectionalPoint ℝ)

theorem rendererAt_transform (t : ℕ) :
    Same (rendererAt std r (fun t => (states t).transform (m t)) t) (rendererAt std r states t) := by
  induction t with
  | zero => exact ⟨rfl, rfl, rfl, rfl⟩
  | succ t ih => exact ih.process (states t) (m t)

theorem gainAt_transform {h : History ℝ n}
    (hplace : ∀ t, (h.position t).toComplex ≠ listener (states t)) (out : Fin outputs.length) (t : ℕ) :
    gainAt std r (fun t => (states t).transform (m t)) out (h.transform m) t =
      gainAt std r states out h t := by
  cases t with
  | zero => rfl
  | succ t =>
    have hsame := @rendererAt_transform _ std r states m (t + 1)
    have hangle := @incidenceAngle_transform (states t) (m t) _ std
      (rendererAt std r (fun t => (states t).transform (m t)) t) (rendererAt std r states t) _
      (hplace t)
    have hweights : weightsAt std r (fun t => (states t).transform (m t)) (h.transform m) t =
        weightsAt std r states h t := by
      rw [weightsAt, weightsAt, hsame.overhangAngle, hsame.loudspeakers]
      exact congrArg _ hangle
    rw [gainAt, gainAt, hweights]
    rfl

end VbapRenderer

/-- **Both panning renderers** give the same gains in every block, however reference and sources are
moved together from block to block. -/
theorem panning_gains_transform {n : ℕ} (states : ℕ → RenderState ℝ) (m : ℕ → DirectionalPoint ℝ) :
    (∀ (r : AapRenderer) (out : LoudspeakerOutput ℝ) (source : ℕ → RenderSource ℝ n),
      (∀ t, (source t).data.position.toComplex ≠ (states t).referencePosition.toComplex) → ∀ t,
        r.weights out (fun t => (states t).transform (m t))
            (fun t => { source t with data := (source t).data.transform (m t) }) t =
          r.weights out states source t) ∧
    ∀ {outputs : List (LoudspeakerOutput ℝ)}
      (std : SortBy (VbapRenderer.LoudspeakerEntry.angle (T := ℝ) (n := outputs.length)))
      (r : VbapRenderer outputs) (h : VbapRenderer.History ℝ n),
      (∀ t, (h.position t).toComplex ≠ VbapRenderer.listener (states t)) → ∀ out t,
        VbapRenderer.gainAt std r (fun t => (states t).transform (m t)) out (h.transform m) t =
          VbapRenderer.gainAt std r states out h t := by
  refine ⟨fun r out source hplace t => ?_, fun std r h hplace out t =>
    VbapRenderer.gainAt_transform r states m hplace out t⟩
  cases t with
  | zero => rfl
  | succ t => exact r.weight_transform (states t) (m t) out (source t) (hplace t)

theorem panning_gains_transform_right :
    (∀ t, (AapRenderer.mk 1 true).weights (VbapRenderer.loudspeakerAt 1 0)
        (fun _ => RenderState.new.transform WfsRenderer.quarterTurn)
        (fun t => { AapRenderer.alternating t with
          data := (AapRenderer.alternating t).data.transform WfsRenderer.quarterTurn }) t =
      (AapRenderer.mk 1 true).weights (VbapRenderer.loudspeakerAt 1 0) (fun _ => .new)
        AapRenderer.alternating t) ∧
    ∀ out t, VbapRenderer.gainAt (SortBy.merge _) VbapRenderer.semicircleRenderer
        (fun _ => (VbapRenderer.offsetState 0 0).transform WfsRenderer.quarterTurn) out
        (VbapRenderer.right.transform fun _ => WfsRenderer.quarterTurn) t =
      VbapRenderer.gainAt (SortBy.merge _) VbapRenderer.semicircleRenderer
        (fun _ => VbapRenderer.offsetState 0 0) out VbapRenderer.right t := by
  refine ⟨(panning_gains_transform (fun _ => .new) fun _ => WfsRenderer.quarterTurn).1 _ _ _
      fun t h => ?_,
    (panning_gains_transform (fun _ => VbapRenderer.offsetState 0 0)
      fun _ => WfsRenderer.quarterTurn).2 _ _ _ fun t h => ?_⟩
  · have hre := congrArg Complex.re h
    simp [AapRenderer.alternating, Position.toComplex, RenderState.new, Position.origin,
      FloatOps.ofInt] at hre
  · have hre := congrArg Complex.re h
    rw [VbapRenderer.listener, VbapRenderer.blockOffset_real] at hre
    simp [VbapRenderer.right, Position.toComplex, VbapRenderer.offsetState, RenderState.new,
      Position.origin, FloatOps.ofInt] at hre

end Ssr
