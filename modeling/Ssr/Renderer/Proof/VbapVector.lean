import Ssr.Renderer.Proof.VbapWeights

/-!
# The vector base of the VBAP renderer

In a valid section the two weights are the coordinates of the unit vector towards the source, in the
base of the unit vectors towards the two loudspeakers. So the directions of all loudspeakers, each
times its weight, add up to the direction of the source, as seen from the offset of the reference
(`velocity_vector`). This is a fact about angles up to full turns: the table is cut open at the angle
zero, and the differences of angles are wrapped again in between.
-/

set_option autoImplicit false

namespace Ssr.VbapRenderer

open Apf Lib

variable {n : ℕ} {first second : LoudspeakerEntry ℝ n} {direction : ℝ}

/-! ## Two loudspeakers -/

/-- The quotients that `_calculate_loudspeaker_weights` computes by way of half angles. -/
theorem calculate_valid (overhangAngle : ℝ) (hvalid : first.validSection = true)
    (hgap : Real.sin (second.angle - first.angle) ≠ 0) :
    calculateLoudspeakerWeights overhangAngle direction first second = some
      (⟨some first.lsPtr,
        Real.sin (second.angle - direction) / Real.sin (second.angle - first.angle)⟩,
      ⟨some second.lsPtr,
        Real.sin (direction - first.angle) / Real.sin (second.angle - first.angle)⟩) := by
  rw [calculateLoudspeakerWeights, if_pos hvalid]
  dsimp only
  generalize hgapAngle : wrapTwoPi (second.angle - first.angle) = gap
  generalize hphi : wrapTwoPi (direction - first.angle - gap / ((2 : ℕ) : ℝ)) = phi
  have hgapUnit : unit gap = unit (second.angle - first.angle) := by
    rw [← hgapAngle, unit_wrapTwoPi]
  have hphiUnit : unit phi = unit (direction - first.angle - gap / ((2 : ℕ) : ℝ)) := by
    rw [← hphi, unit_wrapTwoPi]
  -- the angles from the source to the two loudspeakers
  have hsecond : Real.sin (phi + gap / ((2 : ℕ) : ℝ)) = Real.sin (direction - first.angle) := by
    apply sin_eq_of_unit_eq
    rw [unit_add, hphiUnit, ← unit_add, sub_add_cancel]
  have hfirst : Real.sin (gap / ((2 : ℕ) : ℝ) - phi) = Real.sin (second.angle - direction) := by
    apply sin_eq_of_unit_eq
    rw [unit_sub, hphiUnit, ← unit_sub, show gap / ((2 : ℕ) : ℝ) -
      (direction - first.angle - gap / ((2 : ℕ) : ℝ)) = gap - (direction - first.angle) by
        push_cast; ring, unit_sub, hgapUnit, ← unit_sub, sub_sub_sub_cancel_right]
  have hden : ((2 : ℕ) : ℝ) * Real.cos (gap / ((2 : ℕ) : ℝ)) * Real.sin (gap / ((2 : ℕ) : ℝ)) =
      Real.sin (second.angle - first.angle) := by
    rw [← sin_eq_of_unit_eq hgapUnit, Nat.cast_ofNat, mul_right_comm, ← Real.sin_two_mul,
      mul_div_cancel₀ _ (two_ne_zero)]
  have hnum : ∀ x y : ℝ, CMath.cos x * CMath.sin y + CMath.sin x * CMath.cos y =
      Real.sin (x + y) := fun x y => (add_comm _ _).trans (Real.sin_add x y).symm
  have hnum' : ∀ x y : ℝ, CMath.cos x * CMath.sin y - CMath.sin x * CMath.cos y =
      Real.sin (y - x) := by
    intro x y
    rw [Real.sin_sub]
    change Real.cos x * Real.sin y - Real.sin x * Real.cos y = _
    ring
  have hden' : ((2 : ℕ) : ℝ) * CMath.cos (gap / ((2 : ℕ) : ℝ)) * CMath.sin (gap / ((2 : ℕ) : ℝ)) =
      Real.sin (second.angle - first.angle) := hden
  rw [hnum, hnum', hden', hsecond, hfirst, divide_of_ne hgap, divide_of_ne hgap]
  rfl

/-- The sum of the two unit vectors. -/
theorem weights_unit {α β x : ℝ} (hgap : Real.sin (β - α) ≠ 0) :
    ((Real.sin (β - x) / Real.sin (β - α) : ℝ) : ℂ) * unit α +
      ((Real.sin (x - α) / Real.sin (β - α) : ℝ) : ℂ) * unit β = unit x := by
  have hgap' : (Real.sin (β - α) : ℂ) ≠ 0 := Complex.ofReal_ne_zero.2 hgap
  rw [Complex.ofReal_div, Complex.ofReal_div, div_mul_eq_mul_div, div_mul_eq_mul_div, ← add_div,
    sin_mul_unit, mul_div_cancel_left₀ _ hgap']

/-! ## All loudspeakers -/

/-- The directions of the loudspeakers, each times its weight. -/
noncomputable def vectorSum (first second : LoudspeakerWeight ℝ n) (u : Fin n → ℂ) : ℂ :=
  ∑ out, ((getWeight out first second : ℝ) : ℂ) * u out

/-- Only two loudspeakers have a weight. -/
theorem vectorSum_eq {first second : LoudspeakerWeight ℝ n} {p q : Fin n}
    (hp : first.lsPtr = some p) (hq : second.lsPtr = some q) (hne : p ≠ q) (u : Fin n → ℂ) :
    vectorSum first second u = first.weight * u p + second.weight * u q := by
  have hterm : ∀ out, ((getWeight out first second : ℝ) : ℂ) * u out =
      (if out = p then first.weight * u out else 0) +
        if out = q then second.weight * u out else 0 := by
    intro out
    rw [getWeight, hp, hq]
    simp only [Option.some.injEq, eq_comm (a := p), eq_comm (a := q)]
    by_cases houtp : out = p
    · rw [if_pos houtp, if_pos houtp, if_neg (houtp ▸ hne), add_zero]
    · rw [if_neg houtp, if_neg houtp, zero_add]
      split
      · rfl
      · rw [Complex.ofReal_zero, zero_mul]
  simp only [vectorSum, hterm, Finset.sum_add_distrib, Finset.sum_ite_eq', Finset.mem_univ, if_true]

theorem getWeight_nonneg {first second : LoudspeakerWeight ℝ n} (hfirst : 0 ≤ first.weight)
    (hsecond : 0 ≤ second.weight) (out : Fin n) : 0 ≤ getWeight out first second := by
  rw [getWeight]
  split
  · exact hfirst
  · split
    · exact hsecond
    · exact le_rfl

/-! ## The sections of a table -/

variable {table : List (LoudspeakerEntry ℝ n)} {maxAngle : ℝ}

/-- The flags of a table are those that `_update_valid_sections` sets. -/
def Sectioned (maxAngle : ℝ) (table : List (LoudspeakerEntry ℝ n)) : Prop :=
  updateValidSections maxAngle table = table

theorem length_updateValidSections (maxAngle : ℝ) (table : List (LoudspeakerEntry ℝ n)) :
    (updateValidSections maxAngle table).length = table.length := List.length_mapIdx

theorem sectioned_update (maxAngle : ℝ) (table : List (LoudspeakerEntry ℝ n)) :
    Sectioned maxAngle (updateValidSections maxAngle table) := by
  have hlength := length_updateValidSections maxAngle table
  apply List.ext_getElem?
  intro i
  obtain hinner | hback | hout : i + 1 < table.length ∨ i + 1 = table.length ∨ table.length ≤ i := by
    omega
  · have hfirst : (updateValidSections maxAngle table)[i]? = _ := getElem?_updateValidSections_inner
      (List.getElem?_eq_getElem (show i < table.length by omega)) (List.getElem?_eq_getElem hinner)
    obtain ⟨valid, hsecond⟩ :=
      getElem?_updateValidSections maxAngle (List.getElem?_eq_getElem hinner)
    exact (getElem?_updateValidSections_inner hfirst hsecond).trans hfirst.symm
  · obtain rfl : i = table.length - 1 := by omega
    obtain ⟨back, hback⟩ : ∃ back, table[table.length - 1]? = some back :=
      ⟨_, List.getElem?_eq_getElem (by omega)⟩
    obtain ⟨front, hfront⟩ : ∃ front, table[0]? = some front :=
      ⟨_, List.getElem?_eq_getElem (by omega)⟩
    have hfirst : (updateValidSections maxAngle table)[table.length - 1]? = _ :=
      getElem?_updateValidSections_back hback hfront
    obtain ⟨valid, hsecond⟩ := getElem?_updateValidSections maxAngle hfront
    rw [← hlength] at hfirst ⊢
    exact (getElem?_updateValidSections_back hfirst hsecond).trans hfirst.symm
  · rw [List.getElem?_eq_none (by rw [length_updateValidSections]; omega),
      List.getElem?_eq_none (by omega)]

/-- The direction, up to full turns, is in a section, and the flag says how wide the section is. -/
theorem Encloses.section_eq (ht : IsTable table) (hsectioned : Sectioned maxAngle table)
    (hdir : 0 ≤ direction ∧ direction < 2 * Real.pi) (h : Encloses table direction first second) :
    ∃ x turn, unit x = unit direction ∧ unit (second.angle + turn) = unit second.angle ∧
      first.angle ≤ x ∧ x < second.angle + turn ∧
      first.validSection = decide (second.angle + turn ≤ first.angle + maxAngle) := by
  have hturn : ∀ a, unit (a + 2 * Real.pi) = unit a := fun a => unit_eq_unit_iff.2 ⟨1, by simp⟩
  cases h with
  | @inner i _ _ hfirst hsecond hsplit =>
    have hi := List.getElem?_eq_some_iff.1 hfirst
    have hj := List.getElem?_eq_some_iff.1 hsecond
    have hle := hsplit.before i (by simpa using hi.1) (Nat.lt_succ_self i)
    have hlt := hsplit.after (i + 1) (by simpa using hj.1) (Nat.le_refl _)
    rw [List.getElem_map, hi.2] at hle
    rw [List.getElem_map, hj.2] at hlt
    have hflag : (updateValidSections maxAngle table)[i]? = _ :=
      getElem?_updateValidSections_inner hfirst hsecond
    rw [hsectioned, hfirst] at hflag
    refine ⟨direction, 0, rfl, by rw [add_zero], hle, by rwa [add_zero], ?_⟩
    rw [add_zero]
    exact congrArg LoudspeakerEntry.validSection (Option.some.inj hflag)
  | @outer k _ _ hback hfront hend hsplit =>
    have hi := List.getElem?_eq_some_iff.1 hback
    have hj := List.getElem?_eq_some_iff.1 hfront
    have hflag : (updateValidSections maxAngle table)[table.length - 1]? = _ :=
      getElem?_updateValidSections_back hback hfront
    rw [hsectioned, hback] at hflag
    have hflag' := congrArg LoudspeakerEntry.validSection (Option.some.inj hflag)
    obtain ⟨-, hbacklt⟩ := ht.range _ (List.mem_of_getElem? hback)
    obtain ⟨hfrontle, -⟩ := ht.range _ (List.mem_of_getElem? hfront)
    obtain rfl | rfl := hend
    · -- the direction is before the first loudspeaker
      have hlt := hsplit.after 0 (by simpa using hj.1) (Nat.le_refl _)
      rw [List.getElem_map, hj.2] at hlt
      exact ⟨direction + 2 * Real.pi, 2 * Real.pi, hturn _, hturn _, by linarith [hdir.1],
        by linarith, hflag'⟩
    · have hle := hsplit.before (table.length - 1) (by simpa using hi.1) (by have := hi.1; omega)
      rw [List.getElem_map, hi.2] at hle
      exact ⟨direction, 2 * Real.pi, rfl, hturn _, hle, by linarith [hdir.2], hflag'⟩

/-- No weight is negative in a section of less than 180 degrees. -/
theorem Encloses.sin_nonneg (ht : IsTable table) (hsectioned : Sectioned maxAngle table)
    (hmax : maxAngle ≤ Real.pi) (hdir : 0 ≤ direction ∧ direction < 2 * Real.pi)
    (h : Encloses table direction first second) (hvalid : first.validSection = true) :
    0 ≤ Real.sin (second.angle - first.angle) ∧ 0 ≤ Real.sin (second.angle - direction) ∧
      0 ≤ Real.sin (direction - first.angle) := by
  obtain ⟨x, turn, hx, hturn, hle, hlt, hflag⟩ := h.section_eq ht hsectioned hdir
  have hwidth := of_decide_eq_true (hflag.symm.trans hvalid)
  have hgap : Real.sin (second.angle - first.angle) = Real.sin (second.angle + turn - first.angle) :=
    sin_eq_of_unit_eq (by rw [unit_sub, unit_sub, hturn])
  have hsecond : Real.sin (second.angle - direction) = Real.sin (second.angle + turn - x) :=
    sin_eq_of_unit_eq (by rw [unit_sub, unit_sub, hturn, hx])
  have hfirst : Real.sin (direction - first.angle) = Real.sin (x - first.angle) :=
    sin_eq_of_unit_eq (by rw [unit_sub, unit_sub, hx])
  rw [hgap, hsecond, hfirst]
  exact ⟨Real.sin_nonneg_of_nonneg_of_le_pi (by linarith) (by linarith),
    Real.sin_nonneg_of_nonneg_of_le_pi (by linarith) (by linarith),
    Real.sin_nonneg_of_nonneg_of_le_pi (by linarith) (by linarith)⟩

/-- In the table, with the flags that are in it. -/
theorem loudspeakerWeights_eq (ht : IsTable table) (overhangAngle : ℝ)
    (h : Encloses table direction first second) :
    loudspeakerWeights overhangAngle table direction =
      calculateLoudspeakerWeights overhangAngle direction first second := by
  rw [loudspeakerWeights, (chosenPair_eq_some_iff ht.sorted).2 h]
  rfl

/-! ## The renderer in a run -/

variable {outputs : List (LoudspeakerOutput ℝ)}
  {std : SortBy (LoudspeakerEntry.angle (T := ℝ) (n := outputs.length))}

/-- The table is searchable and its flags are up to date. -/
structure Ready (r : VbapRenderer outputs) : Prop where
  searchable : Searchable r
  sectioned : Sectioned r.maxAngle r.sortedLoudspeakers

theorem ready_load {maxAngle overhangAngle : Option ℝ} {r : VbapRenderer outputs}
    (h : (new maxAngle overhangAngle).loadReproductionSetup std = .ok r) : Ready r := by
  obtain ⟨table, -, htable⟩ := exists_isTable h
  refine ⟨searchable_load h, ?_⟩
  rw [htable]
  exact sectioned_update _ _

theorem process_maxAngle (r : VbapRenderer outputs) (state : RenderState ℝ) :
    (r.process std state).maxAngle = r.maxAngle := by
  dsimp only [process]
  split
  · dsimp only [updateSections]
    split <;> rfl
  · rfl

/-- A block that keeps the order keeps the table ready. -/
theorem Ready.process {r : VbapRenderer outputs} (h : Ready r) {state : RenderState ℝ}
    (hkeeps : KeepsOrder r state) : Ready (r.process std state) := by
  refine ⟨(h.searchable.process_iff state).2 hkeeps, ?_⟩
  rw [process_maxAngle]
  by_cases hoffset : blockOffset state = r.referenceOffsetPosition.current
  · rw [process_unchanged hoffset]
    exact h.sectioned
  · rw [process_changed hoffset]
    exact sectioned_update _ _

/-- The direction of a loudspeaker as seen from the offset, in the frame of the reference. -/
noncomputable def loudspeakerUnit (state : RenderState ℝ) (out : Fin outputs.length) : ℂ :=
  unit ((outputs.get out).position.sub (blockOffset state)).toComplex.arg

/-- The direction of a source as seen from the offset, in the frame of the reference. -/
noncomputable def sourceUnit (state : RenderState ℝ) (position : Position ℝ) : ℂ :=
  let frame := unit (deg2rad state.referenceOrientation.azimuth)
  unit (position.toComplex -
    ((blockOffset state).toComplex * frame + state.referencePosition.toComplex)).arg / frame

theorem unit_angle {r : VbapRenderer outputs} {state : RenderState ℝ}
    (h : Searchable (r.process std state)) {ls : LoudspeakerEntry ℝ outputs.length}
    (hls : ls ∈ (r.process std state).sortedLoudspeakers) :
    unit ls.angle = loudspeakerUnit state ls.lsPtr := by
  have hangles := h.angles
  rw [current_process] at hangles
  have hangle : ls.angle = loudspeakerAngle (outputs.get ls.lsPtr).position (blockOffset state) :=
    List.map_inj_left.1 hangles ls hls
  rw [hangle, loudspeakerAngle, unit_wrapTwoPi, Position.azimuth_eq, loudspeakerUnit]

theorem unit_incidenceAngle (r : VbapRenderer outputs) (state : RenderState ℝ)
    (position : Position ℝ) :
    unit ((r.process std state).incidenceAngle state position) = sourceUnit state position := by
  have habsolute : (r.process std state).absoluteReferenceOffsetPosition =
      ((r.process std state).referenceOffsetPosition.current.rotate
        state.referenceOrientation.azimuth).add state.referencePosition := rfl
  rw [incidenceAngle, unit_wrapTwoPi, Orientation.sub, deg2rad, sub_mul, unit_sub, ← deg2rad,
    ← deg2rad, Position.azimuth_eq, Position.toComplex_sub, habsolute, current_process,
    Position.toComplex_add, Position.toComplex_rotate, sourceUnit]

/-- One block. -/
theorem Ready.vector {r : VbapRenderer outputs} {state : RenderState ℝ}
    (h : Ready (r.process std state)) (source : Source ℝ outputs.length)
    {first second : LoudspeakerEntry ℝ outputs.length}
    (hpair : chosenPair (r.process std state).sortedLoudspeakers
      ((r.process std state).incidenceAngle state source.position) = some (first, second))
    (hvalid : first.validSection = true) (hgap : Real.sin (second.angle - first.angle) ≠ 0) :
    ∃ source', Source.process (r.process std state) state source = some source' ∧
      vectorSum source'.firstWeight.current source'.secondWeight.current (loudspeakerUnit state) =
        source.weightingFactor * sourceUnit state source.position ∧
      ((r.process std state).maxAngle ≤ Real.pi → 0 ≤ source.weightingFactor → ∀ out,
        0 ≤ getWeight out source'.firstWeight.current source'.secondWeight.current) := by
  have hunit := fun ls => @unit_angle _ _ r state h.searchable ls
  have hsource := @unit_incidenceAngle _ std r state source.position
  have hdir := wrapTwoPi_mem (deg2rad (((source.position.sub
    (r.process std state).absoluteReferenceOffsetPosition).orientation).sub
    state.referenceOrientation).azimuth)
  rw [← incidenceAngle] at hdir
  rw [Source.process]
  generalize r.process std state = v at *
  generalize v.incidenceAngle state source.position = direction at *
  have ht := h.searchable.isTable
  have hencloses := (chosenPair_eq_some_iff ht.sorted).1 hpair
  have hptr : first.lsPtr ≠ second.lsPtr := by
    intro hptr
    rw [ht.eq_of_lsPtr hencloses.mem.1 hencloses.mem.2 hptr, sub_self, Real.sin_zero] at hgap
    exact hgap rfl
  rw [loudspeakerWeights_eq ht _ hencloses, calculate_valid _ hvalid hgap]
  refine ⟨_, rfl, ?_, fun hmax hfactor out => ?_⟩
  · rw [vectorSum_eq rfl rfl hptr, ← hunit _ hencloses.mem.1,
      ← hunit _ hencloses.mem.2, ← hsource, ← weights_unit (x := direction) hgap]
    simp only [BlockParameter.assign, Complex.ofReal_mul]
    ring
  · obtain ⟨h0, h1, h2⟩ := hencloses.sin_nonneg ht h.sectioned hmax hdir hvalid
    exact getWeight_nonneg (mul_nonneg (div_nonneg h1 h0) hfactor)
      (mul_nonneg (div_nonneg h2 h0) hfactor) out

/-- **Vector base amplitude panning.** After any run that keeps the order of the loudspeakers, the
directions of the loudspeakers, each times the weight that a source has for it, add up to the
direction of the source, times its weighting factor. -/
theorem velocity_vector {maxAngle overhangAngle : Option ℝ} {r r' : VbapRenderer outputs}
    (hload : (new maxAngle overhangAngle).loadReproductionSetup std = .ok r)
    {states : List (RenderState ℝ)} {state : RenderState ℝ}
    (hrun : run (step std) r states = some r')
    (hkeeps : AllSteps (step std) KeepsOrder r (states ++ [state]))
    (source : Source ℝ outputs.length) {first second : LoudspeakerEntry ℝ outputs.length}
    (hpair : chosenPair (r'.process std state).sortedLoudspeakers
      ((r'.process std state).incidenceAngle state source.position) = some (first, second))
    (hvalid : first.validSection = true) (hgap : Real.sin (second.angle - first.angle) ≠ 0) :
    ∃ source', Source.process (r'.process std state) state source = some source' ∧
      vectorSum source'.firstWeight.current source'.secondWeight.current (loudspeakerUnit state) =
        source.weightingFactor * sourceUnit state source.position ∧
      ((r'.process std state).maxAngle ≤ Real.pi → 0 ≤ source.weightingFactor → ∀ out,
        0 ≤ getWeight out source'.firstWeight.current source'.secondWeight.current) := by
  have hready : Ready (r'.process std state) := by
    refine AllSteps.inv Ready hkeeps (ready_load hload) ?_ (by rw [run_snoc, hrun]; rfl)
    intro t u state ht hkeeps hstep
    cases hstep
    exact ht.process hkeeps
  exact hready.vector source hpair hvalid hgap

/-- A source on the x-axis, and the reference at the origin. -/
theorem incidenceAngle_right (r : VbapRenderer outputs) :
    (r.process std (offsetState 0 0)).incidenceAngle (offsetState 0 0) ⟨1, 0⟩ = 0 := by
  have habsolute : (r.process std (offsetState 0 0)).absoluteReferenceOffsetPosition =
      ((r.process std (offsetState 0 0)).referenceOffsetPosition.current.rotate
        (offsetState 0 0).referenceOrientation.azimuth).add (offsetState 0 0).referencePosition := rfl
  have hposition : ((⟨1, 0⟩ : Position ℝ).sub
      (r.process std (offsetState 0 0)).absoluteReferenceOffsetPosition).toComplex = 1 := by
    rw [Position.toComplex_sub, habsolute, Position.toComplex_add, Position.toComplex_rotate,
      current_process, blockOffset_real]
    apply Complex.ext <;>
      simp [Position.toComplex, offsetState, RenderState.new, Position.origin, FloatOps.ofInt]
  have hreference : deg2rad (offsetState 0 0).referenceOrientation.azimuth = 0 := by
    simp [offsetState, RenderState.new, Orientation.zero, FloatOps.ofInt, deg2rad]
  rw [incidenceAngle, Orientation.sub, deg2rad, sub_mul, ← deg2rad, ← deg2rad, hreference,
    Position.azimuth_eq, hposition, Complex.arg_one, sub_zero, wrapTwoPi_zero]

theorem chosenPair_semicircleTable :
    chosenPair (updateValidSections (deg2rad ((180 : ℕ) : ℝ)) semicircleTable) 0 =
      some (⟨0, true, (Fin.last 0).castSucc.castSucc⟩,
        ⟨Real.pi / ((2 : ℕ) : ℝ), true, (Fin.last 1).castSucc⟩) := by
  have hpi := Real.pi_pos
  have hmax : deg2rad ((180 : ℕ) : ℝ) = Real.pi := by
    rw [deg2rad_real]
    push_cast
    ring
  have hangles : (updateValidSections (deg2rad ((180 : ℕ) : ℝ)) semicircleTable).map (·.angle) =
      [0, Real.pi / ((2 : ℕ) : ℝ), Real.pi] := rfl
  have hhalf : 0 < Real.pi / ((2 : ℕ) : ℝ) := by positivity
  have hless : Real.pi / ((2 : ℕ) : ℝ) ≤ Real.pi := by
    rw [Nat.cast_ofNat]
    linarith
  have hsorted : [0, Real.pi / ((2 : ℕ) : ℝ), Real.pi].Pairwise (· ≤ ·) := by
    simp only [List.pairwise_cons, List.mem_cons, List.not_mem_nil, or_false, forall_eq_or_imp,
      forall_eq, IsEmpty.forall_iff, implies_true, List.Pairwise.nil, and_true]
    exact ⟨⟨hhalf.le, hpi.le⟩, hless⟩
  have hsplit : Split [0, Real.pi / ((2 : ℕ) : ℝ), Real.pi] 0 1 := by
    refine ⟨by simp, fun i hi hlt => ?_, fun i hi hle => ?_⟩
    · obtain rfl : i = 0 := by omega
      exact le_rfl
    · obtain rfl | rfl : i = 1 ∨ i = 2 := by
        simp only [List.length_cons, List.length_nil] at hi
        omega
      · exact hhalf
      · exact hpi
  have hfirst : (updateValidSections (deg2rad ((180 : ℕ) : ℝ)) semicircleTable)[0]? =
      some ⟨0, true, (Fin.last 0).castSucc.castSucc⟩ := by
    rw [getElem?_updateValidSections_inner (i := 0) rfl rfl, hmax, decide_eq_true (by linarith)]
  have hsecond : (updateValidSections (deg2rad ((180 : ℕ) : ℝ)) semicircleTable)[1]? =
      some ⟨Real.pi / ((2 : ℕ) : ℝ), true, (Fin.last 1).castSucc⟩ := by
    rw [getElem?_updateValidSections_inner (i := 1) rfl rfl, hmax, decide_eq_true (by linarith)]
  exact (chosenPair_eq_some_iff (hangles ▸ hsorted)).2 (.inner hfirst hsecond (hangles ▸ hsplit))

theorem sin_right_angle : Real.sin (Real.pi / ((2 : ℕ) : ℝ) - 0) ≠ 0 := by
  rw [sub_zero, Nat.cast_ofNat, Real.sin_pi_div_two]
  exact one_ne_zero

/-- In the direction of the first loudspeaker, this one alone has a weight. -/
theorem weights_semicircleTable (overhangAngle : ℝ) : loudspeakerWeights overhangAngle
    (updateValidSections (deg2rad ((180 : ℕ) : ℝ)) semicircleTable) 0 =
      some (⟨some (Fin.last 0).castSucc.castSucc, 1⟩, ⟨some (Fin.last 1).castSucc, 0⟩) := by
  have hweights : loudspeakerWeights overhangAngle
      (updateValidSections (deg2rad ((180 : ℕ) : ℝ)) semicircleTable) 0 =
      calculateLoudspeakerWeights overhangAngle 0 ⟨0, true, (Fin.last 0).castSucc.castSucc⟩
        ⟨Real.pi / ((2 : ℕ) : ℝ), true, (Fin.last 1).castSucc⟩ := by
    rw [loudspeakerWeights, chosenPair_semicircleTable]
    rfl
  rw [hweights, calculate_valid _ rfl (by exact sin_right_angle)]
  simp only [div_self sin_right_angle, sub_self, Real.sin_zero, zero_div]

theorem blockOffset_origin : blockOffset (offsetState 0 0) =
    semicircleRenderer.referenceOffsetPosition.current := by
  rw [blockOffset_real]
  exact congrArg (Position.mk 0) neg_zero

/-- A source to the right is in the direction of the first loudspeaker. -/
theorem velocity_vector_semicircle : ∃ source', Source.process
      (semicircleRenderer.process (SortBy.merge _) (offsetState 0 0)) (offsetState 0 0)
      { position := ⟨1, 0⟩, weightingFactor := 2, firstWeight := .new .new, secondWeight := .new .new } =
        some source' ∧
    vectorSum source'.firstWeight.current source'.secondWeight.current
      (loudspeakerUnit (offsetState 0 0)) = (2 : ℝ) * sourceUnit (offsetState 0 0) ⟨1, 0⟩ := by
  have hkeeps : AllSteps (step (SortBy.merge _)) KeepsOrder semicircleRenderer
      ([] ++ [offsetState 0 0]) := by
    exact (allSteps_cons rfl).2 ⟨.inl blockOffset_origin, allSteps_nil⟩
  obtain ⟨source', hsource, hvector, -⟩ := velocity_vector load_semicircle rfl hkeeps
    { position := ⟨1, 0⟩, weightingFactor := 2, firstWeight := .new .new, secondWeight := .new .new }
    (by
      rw [incidenceAngle_right, process_unchanged blockOffset_origin]
      exact chosenPair_semicircleTable)
    rfl (by exact sin_right_angle)
  exact ⟨source', hsource, hvector⟩

end Ssr.VbapRenderer
