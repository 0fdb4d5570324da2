import Ssr.Renderer.Proof.VbapTable

/-!
# The weights of the VBAP renderer

The weights divide by the sine of the angle between the two loudspeakers. A section of more than 180
degrees is not valid, but one of exactly 180 degrees is, and there the sine vanishes. A single
loudspeaker is taken twice if the source is exactly in its direction. In all other cases the weights
are well defined (`wellDefined_iff`).
-/

set_option autoImplicit false

namespace Ssr.VbapRenderer

open Apf Lib

section
variable {T : Type} {n : ℕ}

/-- Nothing has been divided by zero, and the pointers are different or both null. -/
def WellDefined (weights : Option (LoudspeakerWeight T n × LoudspeakerWeight T n)) : Prop :=
  ∃ first second, weights = some (first, second) ∧
    (first.lsPtr ≠ second.lsPtr ∨ first.lsPtr = none ∧ second.lsPtr = none)

/-- Then the assertion of `select` does not fail. -/
theorem WellDefined.select_isSome [DivisionRing T] [LinearOrder T]
    {weights : LoudspeakerWeight T n × LoudspeakerWeight T n} (h : WellDefined (some weights))
    {first second : BlockParameter (LoudspeakerWeight T n)}
    (hfirst : first.current.lsPtr = weights.1.lsPtr)
    (hsecond : second.current.lsPtr = weights.2.lsPtr) (out : Fin n) :
    (select out first second).isSome := by
  obtain ⟨_, _, hweights, hptr⟩ := h
  cases hweights
  rw [select, if_pos]
  · rfl
  · rw [hfirst, hsecond]
    exact hptr.imp_right And.left

end

variable {n : ℕ} {first second : LoudspeakerEntry ℝ n} {direction : ℝ}

/-! ## The two branches -/

theorem divide_of_ne {a b : ℝ} (h : b ≠ 0) : divide a b = some (a / b) := if_neg h

theorem divide_zero (a : ℝ) : divide a 0 = none := if_pos rfl

/-- The denominator is the sine of the angle between the loudspeakers. -/
theorem wellDefined_valid (first second : LoudspeakerEntry ℝ n)
    (hvalid : first.validSection = true) (hptr : first.lsPtr ≠ second.lsPtr) (overhangAngle : ℝ) :
    WellDefined (calculateLoudspeakerWeights overhangAngle direction first second) ↔
      Real.sin (wrapTwoPi (second.angle - first.angle)) ≠ 0 := by
  have hsin : ∀ x : ℝ, ((2 : ℕ) : ℝ) * CMath.cos (x / ((2 : ℕ) : ℝ)) *
      CMath.sin (x / ((2 : ℕ) : ℝ)) = Real.sin x := by
    intro x
    rw [Nat.cast_ofNat, mul_right_comm]
    change 2 * Real.sin (x / 2) * Real.cos (x / 2) = _
    rw [← Real.sin_two_mul, mul_div_cancel₀ _ (two_ne_zero)]
  rw [calculateLoudspeakerWeights, if_pos hvalid]
  dsimp only
  rw [hsin]
  constructor
  · rintro ⟨_, _, h, -⟩ hzero
    rw [hzero, divide_zero] at h
    exact absurd h (by simp)
  · intro hne
    rw [divide_of_ne hne, divide_of_ne hne]
    exact ⟨_, _, rfl, .inl fun h => hptr (Option.some.inj h)⟩

theorem overhangWeight_real {maxOverhang : ℝ} (h : maxOverhang ≠ 0) (overhang : ℝ)
    (ls : LoudspeakerEntry ℝ n) : ∃ weight, overhangWeight maxOverhang overhang ls =
      some ⟨if overhang < maxOverhang then some ls.lsPtr else none, weight⟩ := by
  rw [overhangWeight]
  split
  · have hperiod : ((2 : ℕ) : ℝ) * maxOverhang ≠ 0 := mul_ne_zero (by norm_num) h
    rw [raisedCosine, divide_of_ne hperiod]
    exact ⟨_, rfl⟩
  · exact ⟨_, rfl⟩

/-- Outside of a valid section the loudspeakers are independent. -/
theorem wellDefined_invalid (hvalid : first.validSection = false) {overhangAngle : ℝ}
    (h : overhangAngle ≠ 0) :
    WellDefined (calculateLoudspeakerWeights overhangAngle direction first second) ↔
      ¬ (first.lsPtr = second.lsPtr ∧ wrapTwoPi (direction - first.angle) < overhangAngle ∧
        wrapTwoPi (second.angle - direction) < overhangAngle) := by
  obtain ⟨firstWeight, hfirst⟩ := overhangWeight_real h (wrapTwoPi (direction - first.angle)) first
  obtain ⟨secondWeight, hsecond⟩ :=
    overhangWeight_real h (wrapTwoPi (second.angle - direction)) second
  rw [calculateLoudspeakerWeights, if_neg (by simp [hvalid]), hfirst, hsecond]
  simp only [WellDefined, Option.bind_eq_bind, Option.bind_some, Option.pure_def,
    Option.some.injEq, Prod.mk.injEq]
  by_cases hf : wrapTwoPi (direction - first.angle) < overhangAngle
  · by_cases hs : wrapTwoPi (second.angle - direction) < overhangAngle
    · simp [hf, hs]
    · simp [hf, hs]
  · by_cases hs : wrapTwoPi (second.angle - direction) < overhangAngle
    · simp [hf, hs]
    · simp [hf, hs]

/-! ## The sections of the table -/

variable {table : List (LoudspeakerEntry ℝ n)} {maxAngle : ℝ}

theorem getElem?_updateValidSections_inner {i : ℕ} (hfirst : table[i]? = some first)
    (hsecond : table[i + 1]? = some second) :
    (updateValidSections maxAngle table)[i]? =
      some { first with validSection := decide (second.angle ≤ first.angle + maxAngle) } := by
  rw [updateValidSections, List.getElem?_mapIdx, hfirst, Option.map_some, hsecond]

theorem getElem?_updateValidSections_back {back front : LoudspeakerEntry ℝ n}
    (hback : table[table.length - 1]? = some back) (hfront : table[0]? = some front) :
    (updateValidSections maxAngle table)[table.length - 1]? =
      some { back with
        validSection := decide (front.angle + 2 * Real.pi ≤ back.angle + maxAngle) } := by
  have hend : table[table.length - 1 + 1]? = none := List.getElem?_eq_none (by omega)
  have hturn : deg2rad ((360 : ℕ) : ℝ) = 2 * Real.pi := by
    rw [deg2rad_real]
    push_cast
    ring
  rw [updateValidSections, List.getElem?_mapIdx, hback, Option.map_some, hend, List.head?_eq_getElem?,
    hfront, hturn]

theorem getElem?_updateValidSections (maxAngle : ℝ) {i : ℕ} (h : table[i]? = some second) :
    ∃ valid,
      (updateValidSections maxAngle table)[i]? = some { second with validSection := valid } := by
  rw [updateValidSections, List.getElem?_mapIdx, h, Option.map_some]
  split
  · exact ⟨_, rfl⟩
  · exact ⟨_, rfl⟩
  · exact ⟨_, rfl⟩

/-- A table as `load_reproduction_setup` leaves it, when its sections are not yet known. -/
structure IsTable (table : List (LoudspeakerEntry ℝ n)) : Prop where
  ne_nil : table ≠ []
  sorted : (table.map (·.angle)).Pairwise (· ≤ ·)
  range : ∀ ls ∈ table, 0 ≤ ls.angle ∧ ls.angle < 2 * Real.pi
  nodup : (table.map (·.lsPtr)).Nodup

theorem Encloses.mem (h : Encloses table direction first second) : first ∈ table ∧ second ∈ table := by
  cases h with
  | inner hfirst hsecond _ => exact ⟨List.mem_of_getElem? hfirst, List.mem_of_getElem? hsecond⟩
  | outer hback hfront _ _ => exact ⟨List.mem_of_getElem? hback, List.mem_of_getElem? hfront⟩

theorem IsTable.eq_of_lsPtr (ht : IsTable table) (hfirst : first ∈ table) (hsecond : second ∈ table)
    (h : first.lsPtr = second.lsPtr) : first = second :=
  List.inj_on_of_nodup_map ht.nodup hfirst hsecond h

/-- The weights in the table with its sections, for a pair around the direction: a section that does
not contain the angle 0, or the one that does. -/
theorem loudspeakerWeights_of_encloses (ht : IsTable table) (overhangAngle maxAngle : ℝ)
    (h : Encloses table direction first second) :
    ∃ turn valid, (first.angle < second.angle ∧ turn = 0 ∨
        second.angle ≤ first.angle ∧ turn = 2 * Real.pi) ∧
      loudspeakerWeights overhangAngle (updateValidSections maxAngle table) direction =
        calculateLoudspeakerWeights overhangAngle direction
          { first with validSection := decide (second.angle + turn ≤ first.angle + maxAngle) }
          { second with validSection := valid } := by
  have hmap : (updateValidSections maxAngle table).map (·.angle) = table.map (·.angle) :=
    map_updateValidSections (fun _ _ => rfl) _ _
  have hlength : (updateValidSections maxAngle table).length = table.length := by
    rw [← List.length_map (f := (·.angle)), hmap, List.length_map]
  have hchosen : ∀ {first' second'},
      Encloses (updateValidSections maxAngle table) direction first' second' →
      loudspeakerWeights overhangAngle (updateValidSections maxAngle table) direction =
        calculateLoudspeakerWeights overhangAngle direction first' second' := by
    intro first' second' h'
    rw [loudspeakerWeights, (chosenPair_eq_some_iff (hmap ▸ ht.sorted)).2 h']
    rfl
  cases h with
  | @inner i _ _ hfirst hsecond hsplit =>
    have hi := List.getElem?_eq_some_iff.1 hfirst
    have hj := List.getElem?_eq_some_iff.1 hsecond
    obtain ⟨valid, hvalid⟩ := getElem?_updateValidSections maxAngle hsecond
    refine ⟨0, valid, .inl ⟨?_, rfl⟩, ?_⟩
    · have hle := hsplit.before i (by simpa using hi.1) (Nat.lt_succ_self i)
      have hlt := hsplit.after (i + 1) (by simpa using hj.1) (Nat.le_refl _)
      rw [List.getElem_map, hi.2] at hle
      rw [List.getElem_map, hj.2] at hlt
      exact lt_of_le_of_lt hle hlt
    · rw [add_zero]
      exact hchosen (.inner (getElem?_updateValidSections_inner hfirst hsecond) hvalid
        (hmap ▸ hsplit))
  | @outer k _ _ hback hfront hend hsplit =>
    have hi := List.getElem?_eq_some_iff.1 hback
    have hj := List.getElem?_eq_some_iff.1 hfront
    obtain ⟨valid, hvalid⟩ := getElem?_updateValidSections maxAngle hfront
    refine ⟨2 * Real.pi, valid, .inr ⟨?_, rfl⟩, ?_⟩
    · obtain ⟨hlt, hback⟩ := hi
      obtain ⟨hpos, hfront⟩ := hj
      obtain heq | hne := Nat.eq_zero_or_pos (table.length - 1)
      · rw [← hback, ← hfront]
        simp [heq]
      · have hle := List.pairwise_iff_getElem.1 ht.sorted 0 (table.length - 1) (by simpa using hpos)
          (by simpa using hpos) hne
        rw [List.getElem_map, List.getElem_map, hback, hfront] at hle
        exact hle
    · rw [← hlength] at hend
      exact hchosen (.outer (hlength ▸ getElem?_updateValidSections_back hback hfront) hvalid hend
        (hmap ▸ hsplit))

theorem sin_ne_zero_iff {x : ℝ} (hpos : 0 < x) (hle : x ≤ Real.pi) :
    Real.sin x ≠ 0 ↔ x ≠ Real.pi := by
  constructor
  · rintro h rfl
    exact h Real.sin_pi
  · exact fun h => (Real.sin_pos_of_pos_of_lt_pi hpos (lt_of_le_of_ne hle h)).ne'

theorem Encloses.single_iff (ht : IsTable table) (h : Encloses table direction first second) :
    first.lsPtr = second.lsPtr ↔ table = [first] := by
  constructor
  · intro hptr
    obtain ⟨hf, hs⟩ := h.mem
    have heq := ht.eq_of_lsPtr hf hs hptr
    have hnodup := ht.nodup.of_map
    cases h with
    | inner hfirst hsecond hsplit =>
      obtain ⟨hi, hfirst⟩ := List.getElem?_eq_some_iff.1 hfirst
      obtain ⟨hj, hsecond⟩ := List.getElem?_eq_some_iff.1 hsecond
      have hindex := (hnodup.getElem_inj_iff).1 (hfirst.trans (heq.trans hsecond.symm))
      omega
    | outer hback hfront hend hsplit =>
      obtain ⟨hi, hback⟩ := List.getElem?_eq_some_iff.1 hback
      obtain ⟨hj, hfront⟩ := List.getElem?_eq_some_iff.1 hfront
      have hindex := (hnodup.getElem_inj_iff).1 (hback.trans (heq.trans hfront.symm))
      obtain ⟨ls, hls⟩ := List.length_eq_one_iff.1 (show table.length = 1 by omega)
      rw [hls, List.mem_singleton] at hf
      rw [hls, hf]
  · intro hsingle
    obtain ⟨hf, hs⟩ := h.mem
    rw [hsingle, List.mem_singleton] at hs
    rw [hs]

theorem overlap_iff (hfirst : 0 ≤ first.angle ∧ first.angle < 2 * Real.pi)
    (hdir : 0 ≤ direction ∧ direction < 2 * Real.pi) :
    wrapTwoPi (direction - first.angle) < Real.pi / 6 ∧
      wrapTwoPi (first.angle - direction) < Real.pi / 6 ↔ direction = first.angle := by
  have hpi := Real.pi_pos
  obtain hlt | heq | hgt := lt_trichotomy direction first.angle
  · rw [wrapTwoPi_of_neg (by linarith) (by linarith),
      wrapTwoPi_of_nonneg (by linarith) (by linarith)]
    exact iff_of_false (fun h => by linarith [h.1, h.2]) hlt.ne
  · rw [heq, sub_self, wrapTwoPi_zero]
    exact iff_of_true ⟨by positivity, by positivity⟩ rfl
  · rw [wrapTwoPi_of_nonneg (by linarith) (by linarith),
      wrapTwoPi_of_neg (by linarith) (by linarith)]
    exact iff_of_false (fun h => by linarith [h.1, h.2]) hgt.ne'

/-- The weights that the default angles give for an enclosing pair. -/
theorem wellDefined_pair (ht : IsTable table) (hdir : 0 ≤ direction ∧ direction < 2 * Real.pi)
    (h : Encloses table direction first second) :
    WellDefined (loudspeakerWeights (deg2rad ((30 : ℕ) : ℝ))
        (updateValidSections (deg2rad ((180 : ℕ) : ℝ)) table) direction) ↔
      |second.angle - first.angle| ≠ Real.pi ∧
        (first.lsPtr = second.lsPtr → direction ≠ first.angle) := by
  have hpi := Real.pi_pos
  obtain ⟨hf, hs⟩ := h.mem
  have hmax : deg2rad ((180 : ℕ) : ℝ) = Real.pi := by
    rw [deg2rad_real]
    push_cast
    ring
  have hoverhang : deg2rad ((30 : ℕ) : ℝ) = Real.pi / 6 := by
    rw [deg2rad_real]
    push_cast
    ring
  have hfirst := ht.range first hf
  have hsecond := ht.range second hs
  obtain ⟨turn, valid, hturn, hweights⟩ := loudspeakerWeights_of_encloses ht
    (deg2rad ((30 : ℕ) : ℝ)) (deg2rad ((180 : ℕ) : ℝ)) h
  rw [hweights, hmax, hoverhang]
  by_cases hvalid : second.angle + turn ≤ first.angle + Real.pi
  · -- the gap is positive, so that these are two loudspeakers
    obtain ⟨hgap, hpos, habs⟩ : wrapTwoPi (second.angle - first.angle) =
        second.angle + turn - first.angle ∧ 0 < second.angle + turn - first.angle ∧
        (|second.angle - first.angle| ≠ Real.pi ↔
          second.angle + turn - first.angle ≠ Real.pi) := by
      obtain ⟨hlt, rfl⟩ | ⟨hle, rfl⟩ := hturn
      · rw [wrapTwoPi_of_nonneg (by linarith) (by linarith), abs_of_pos (by linarith), add_zero]
        exact ⟨rfl, by linarith, Iff.rfl⟩
      · rw [wrapTwoPi_of_neg (by linarith) (by linarith), abs_of_neg (by linarith)]
        refine ⟨by ring, by linarith, not_congr ⟨fun h => by linarith, fun h => by linarith⟩⟩
    have hptr : first.lsPtr ≠ second.lsPtr := by
      intro hptr
      have heq := ht.eq_of_lsPtr hf hs hptr
      rw [heq] at hvalid hpos hgap
      rw [sub_self, wrapTwoPi_zero] at hgap
      exact hpos.ne hgap
    rw [habs, and_iff_left fun h => absurd h hptr, ← sin_ne_zero_iff hpos (by linarith), ← hgap]
    exact wellDefined_valid ⟨first.angle, _, first.lsPtr⟩ ⟨second.angle, valid, second.lsPtr⟩
      (decide_eq_true hvalid) hptr _
  · have habs : |second.angle - first.angle| ≠ Real.pi := by
      obtain ⟨hlt, rfl⟩ | ⟨hle, rfl⟩ := hturn
      · rw [abs_of_pos (by linarith)]
        exact fun h => hvalid (by linarith)
      · rw [abs_of_nonpos (by linarith)]
        exact fun h => hvalid (by linarith)
    rw [and_iff_right habs]
    refine (wellDefined_invalid (by exact decide_eq_false hvalid) (by positivity)).trans ?_
    rw [not_and]
    refine forall_congr' fun hptr => not_congr ?_
    have heq := ht.eq_of_lsPtr hf hs hptr
    rw [← heq]
    exact overlap_iff hfirst hdir

/-- Nothing is opposite and the only loudspeaker is not met. -/
structure Regular (table : List (LoudspeakerEntry ℝ n)) (direction : ℝ) : Prop where
  not_opposite : ∀ first second, Encloses table direction first second →
    |second.angle - first.angle| ≠ Real.pi
  not_single : ∀ ls, table = [ls] → direction ≠ ls.angle

/-- **The weights are well defined**, exactly if the two loudspeakers around the direction are not
opposite each other and the direction is not that of the only loudspeaker. -/
theorem wellDefined_iff (ht : IsTable table)
    (hdir : 0 ≤ direction ∧ direction < 2 * Real.pi) :
    WellDefined (loudspeakerWeights (deg2rad ((30 : ℕ) : ℝ))
        (updateValidSections (deg2rad ((180 : ℕ) : ℝ)) table) direction) ↔
      Regular table direction := by
  obtain ⟨first, second, hpair, h⟩ := exists_encloses ht.ne_nil ht.sorted direction
  rw [wellDefined_pair ht hdir h, h.single_iff ht]
  constructor
  · rintro ⟨hopposite, hsingle⟩
    refine ⟨fun first' second' h' => ?_, fun ls hls => ?_⟩
    · have hsame := (chosenPair_eq_some_iff ht.sorted).2 h'
      rw [hpair] at hsame
      cases hsame
      exact hopposite
    · have hmem := h.mem.1
      rw [hls, List.mem_singleton] at hmem
      rw [← hmem]
      exact hsingle (hmem ▸ hls)
  · intro hregular
    exact ⟨hregular.not_opposite first second h, hregular.not_single first⟩

/-- Two loudspeakers, one of them in the direction of the x-axis. -/
def twoLoudspeakers (angle : ℝ) : List (LoudspeakerEntry ℝ 2) :=
  [⟨0, false, (Fin.last 0).castSucc⟩, ⟨angle, false, Fin.last 1⟩]

theorem isTable_two {angle : ℝ} (h : 0 ≤ angle ∧ angle < 2 * Real.pi) :
    IsTable (twoLoudspeakers angle) := by
  refine ⟨List.cons_ne_nil _ _, ?_, ?_, ?_⟩
  · simp [twoLoudspeakers, h.1]
  · intro ls hls
    simp only [twoLoudspeakers, List.mem_cons, List.not_mem_nil, or_false] at hls
    obtain rfl | rfl := hls
    · exact ⟨le_rfl, Real.two_pi_pos⟩
    · exact h
  · simp [twoLoudspeakers]

theorem wellDefined_right_angle :
    WellDefined (loudspeakerWeights (deg2rad ((30 : ℕ) : ℝ))
      (updateValidSections (deg2rad ((180 : ℕ) : ℝ)) (twoLoudspeakers (Real.pi / 2))) 1) := by
  have hpi := Real.two_le_pi
  refine (wellDefined_iff (isTable_two ⟨by linarith, by linarith⟩) ⟨zero_le_one, by linarith⟩).2
    ⟨fun first second h => ?_, fun ls h => absurd h (by simp [twoLoudspeakers])⟩
  obtain ⟨hf, hs⟩ := h.mem
  simp only [twoLoudspeakers, List.mem_cons, List.not_mem_nil, or_false] at hf hs
  refine ne_of_lt (abs_lt.2 ?_)
  obtain rfl | rfl := hf <;> obtain rfl | rfl := hs <;> constructor <;> dsimp only <;> linarith

/-- Opposite loudspeakers, and a single loudspeaker in the direction of the source. -/
theorem not_wellDefined_opposite :
    (IsTable (twoLoudspeakers Real.pi) ∧
      ¬ WellDefined (loudspeakerWeights (deg2rad ((30 : ℕ) : ℝ))
        (updateValidSections (deg2rad ((180 : ℕ) : ℝ)) (twoLoudspeakers Real.pi)) 0)) ∧
    IsTable [(⟨0, false, 0⟩ : LoudspeakerEntry ℝ 1)] ∧
      ¬ WellDefined (loudspeakerWeights (deg2rad ((30 : ℕ) : ℝ))
        (updateValidSections (deg2rad ((180 : ℕ) : ℝ)) [(⟨0, false, 0⟩ : LoudspeakerEntry ℝ 1)])
        0) := by
  have hpi := Real.pi_pos
  have htwo := isTable_two ⟨hpi.le, by linarith⟩
  have hone : IsTable [(⟨0, false, 0⟩ : LoudspeakerEntry ℝ 1)] :=
    ⟨List.cons_ne_nil _ _, by simp, by simp [hpi], by simp⟩
  refine ⟨⟨htwo, ?_⟩, hone, ?_⟩
  · have h : Encloses (twoLoudspeakers Real.pi) 0 ⟨0, false, 0⟩ ⟨Real.pi, false, 1⟩ := by
      refine .inner (i := 0) rfl rfl
        ⟨by simp [twoLoudspeakers], fun i hi hlt => ?_, fun i hi hle => ?_⟩
      · obtain rfl : i = 0 := by omega
        exact le_rfl
      · obtain rfl : i = 1 := by simp [twoLoudspeakers] at hi; omega
        exact hpi
    rw [wellDefined_pair htwo ⟨le_rfl, by linarith⟩ h]
    exact fun hne => hne.1 (by simp [abs_of_pos hpi])
  · have h : Encloses [(⟨0, false, 0⟩ : LoudspeakerEntry ℝ 1)] 0 ⟨0, false, 0⟩ ⟨0, false, 0⟩ := by
      refine .outer (k := 1) rfl rfl (.inr rfl) ⟨by simp, fun i hi hlt => ?_, fun i hi hle => ?_⟩
      · obtain rfl : i = 0 := by omega
        exact le_rfl
      · exact absurd hi (by simp; omega)
    rw [wellDefined_pair hone ⟨le_rfl, by linarith⟩ h]
    exact fun hne => hne.2 rfl rfl

/-! ## Loaded tables -/

variable {outputs : List (LoudspeakerOutput ℝ)}

theorem Searchable.isTable {r : VbapRenderer outputs} (h : Searchable r) :
    IsTable r.sortedLoudspeakers := by
  refine ⟨fun hnil => ?_, h.sorted, fun ls hls => ?_, ?_⟩
  · have hcomplete := h.complete
    rw [hnil, List.map_nil, List.nil_perm] at hcomplete
    exact h.loudspeakers_ne_nil hcomplete
  · have hangle := List.map_inj_left.1 h.angles ls hls
    rw [hangle]
    exact wrapTwoPi_mem _
  · exact h.complete.nodup_iff.2 ((List.nodup_finRange _).filter _)

theorem IsTable.of_updateValidSections (h : IsTable (updateValidSections maxAngle table)) :
    IsTable table := by
  have hmap : (updateValidSections maxAngle table).map (·.angle) = table.map (·.angle) :=
    map_updateValidSections (fun _ _ => rfl) _ _
  refine ⟨fun hnil => h.ne_nil (by rw [hnil]; rfl), hmap ▸ h.sorted, fun ls hls => ?_, ?_⟩
  · have hmem : ls.angle ∈ (updateValidSections maxAngle table).map (·.angle) :=
      hmap ▸ List.mem_map_of_mem hls
    obtain ⟨ls', hls', hangle⟩ := List.mem_map.1 hmem
    exact hangle ▸ h.range ls' hls'
  · rw [← map_updateValidSections (fun _ _ => rfl) maxAngle table]
    exact h.nodup

/-- Whatever has been loaded is a table with its valid sections. -/
theorem exists_isTable {std : SortBy (LoudspeakerEntry.angle (T := ℝ))}
    {maxAngle overhangAngle : Option ℝ} {r : VbapRenderer outputs}
    (h : (new maxAngle overhangAngle).loadReproductionSetup std = .ok r) :
    ∃ table, IsTable table ∧ r.sortedLoudspeakers = updateValidSections r.maxAngle table := by
  have htable := (searchable_load h).isTable
  dsimp only [loadReproductionSetup, new, List.nil_append] at h
  split at h
  · exact absurd h (by simp)
  · cases h
    exact ⟨_, htable.of_updateValidSections, rfl⟩

end Ssr.VbapRenderer
