import Ssr.Renderer.VbapRenderer
import Ssr.Scene.Proof.Geometry

/-!
# The table of the VBAP renderer stays sorted

In a sorted table `upper_bound` finds the two neighbours that enclose a direction
(`chosenPair_eq_some_iff`). `Process` computes the angles anew for each offset of the reference, but
sorts only if the last loudspeaker comes before the first one. The table is sorted after a block
exactly if this, or the order of the angles themselves, has made it so (`KeepsOrder`).
-/

set_option autoImplicit false

namespace Ssr.VbapRenderer

open Apf Lib

variable {T : Type} {n : ℕ}

/-! ## The enclosing pair -/

section
variable {table : List (LoudspeakerEntry T n)}

theorem circularPair_ends {k : ℕ} (h : k = 0 ∨ k = table.length) :
    circularPair table k = do return (← table[table.length - 1]?, ← table[0]?) := by
  obtain rfl | rfl := h
  · simp [circularPair]
  · simp [circularPair]

theorem circularPair_succ {i : ℕ} (h : i + 1 < table.length) :
    circularPair table (i + 1) = do return (← table[i]?, ← table[i + 1]?) := by
  simp [circularPair, h.ne]

end

variable [LinearOrder T]

/-- `first` and `second` are neighbours in the circular table, and the direction is between them. -/
inductive Encloses (table : List (LoudspeakerEntry T n)) (direction : T) :
    LoudspeakerEntry T n → LoudspeakerEntry T n → Prop
  | inner {i : ℕ} {first second : LoudspeakerEntry T n} (hfirst : table[i]? = some first)
      (hsecond : table[i + 1]? = some second)
      (hsplit : Split (table.map (·.angle)) direction (i + 1)) : Encloses table direction first second
  /-- The direction is before the first or after the last loudspeaker. -/
  | outer {k : ℕ} {back front : LoudspeakerEntry T n} (hback : table[table.length - 1]? = some back)
      (hfront : table[0]? = some front) (hend : k = 0 ∨ k = table.length)
      (hsplit : Split (table.map (·.angle)) direction k) : Encloses table direction back front

variable {table : List (LoudspeakerEntry T n)} {direction : T} {first second : LoudspeakerEntry T n}

theorem chosenPair_of_split (hsorted : (table.map (·.angle)).Pairwise (· ≤ ·)) {k : ℕ}
    (h : Split (table.map (·.angle)) direction k) :
    chosenPair table direction = circularPair table k := by
  rw [← (split_upperBound hsorted direction).unique h]
  rfl

theorem chosenPair_eq_some_iff (hsorted : (table.map (·.angle)).Pairwise (· ≤ ·)) :
    chosenPair table direction = some (first, second) ↔ Encloses table direction first second := by
  constructor
  · intro h
    have hsplit := split_upperBound hsorted direction
    generalize upperBound (table.map (·.angle)) direction = k at hsplit
    rw [chosenPair_of_split hsorted hsplit] at h
    have hk := hsplit.le_length
    rw [List.length_map] at hk
    by_cases hend : k = 0 ∨ k = table.length
    · simp only [circularPair_ends hend, Option.pure_def, Option.bind_eq_bind, Option.bind_eq_some_iff,
        Option.some.injEq, Prod.mk.injEq] at h
      obtain ⟨back, hback, front, hfront, rfl, rfl⟩ := h
      exact .outer hback hfront hend hsplit
    · obtain ⟨i, rfl⟩ : ∃ i, k = i + 1 := Nat.exists_eq_succ_of_ne_zero fun h => hend (.inl h)
      simp only [circularPair_succ (show i + 1 < table.length by omega), Option.pure_def,
        Option.bind_eq_bind, Option.bind_eq_some_iff, Option.some.injEq, Prod.mk.injEq] at h
      obtain ⟨first, hfirst, second, hsecond, rfl, rfl⟩ := h
      exact .inner hfirst hsecond hsplit
  · intro h
    cases h with
    | inner hfirst hsecond hsplit =>
      obtain ⟨hlt, -⟩ := List.getElem?_eq_some_iff.1 hsecond
      rw [chosenPair_of_split hsorted hsplit, circularPair_succ hlt, hfirst, hsecond]
      rfl
    | outer hback hfront hend hsplit =>
      rw [chosenPair_of_split hsorted hsplit, circularPair_ends hend, hback, hfront]
      rfl

/-- Every direction is enclosed by a pair, which the search finds. -/
theorem exists_encloses (hne : table ≠ []) (hsorted : (table.map (·.angle)).Pairwise (· ≤ ·))
    (direction : T) :
    ∃ first second, chosenPair table direction = some (first, second) ∧
      Encloses table direction first second := by
  have hpos := List.length_pos_iff.2 hne
  have hsplit := split_upperBound hsorted direction
  have hk := hsplit.le_length
  rw [List.length_map] at hk
  generalize upperBound (table.map (·.angle)) direction = k at hsplit hk
  obtain ⟨first, second, h⟩ : ∃ first second, Encloses table direction first second := by
    by_cases hend : k = 0 ∨ k = table.length
    · exact ⟨_, _, .outer (List.getElem?_eq_getElem (by omega)) (List.getElem?_eq_getElem hpos) hend
        hsplit⟩
    · obtain ⟨i, rfl⟩ : ∃ i, k = i + 1 := Nat.exists_eq_succ_of_ne_zero fun h => hend (.inl h)
      exact ⟨_, _, .inner (List.getElem?_eq_getElem (by omega)) (List.getElem?_eq_getElem (by omega))
        hsplit⟩
  exact ⟨first, second, (chosenPair_eq_some_iff hsorted).2 h, h⟩

/-! ## What the steps of `Process` do with the table -/

/-- The last angle is less than the first one. -/
def Wrapped (angles : List T) : Prop :=
  ∃ back front, angles.getLast? = some back ∧ angles.head? = some front ∧ back < front

variable [DivisionRing T] {outputs : List (LoudspeakerOutput T)}

theorem backLtFront_iff (r : VbapRenderer outputs) :
    r.backLtFront = true ↔ Wrapped (r.sortedLoudspeakers.map (·.angle)) := by
  rw [backLtFront, Wrapped, List.getLast?_map, List.head?_map]
  cases r.sortedLoudspeakers.getLast? with
  | none => simp
  | some back =>
    cases r.sortedLoudspeakers.head? with
    | none => simp
    | some front => simp

variable [CMath T]

/-- `_update_valid_sections` changes nothing but the flags. -/
theorem map_updateValidSections {β : Type} {f : LoudspeakerEntry T n → β}
    (hf : ∀ ls valid, f { ls with validSection := valid } = f ls) (maxAngle : T)
    (table : List (LoudspeakerEntry T n)) :
    (updateValidSections maxAngle table).map f = table.map f := by
  apply List.ext_getElem
  · simp [updateValidSections]
  · intro i hi hi'
    simp only [updateValidSections, List.getElem_mapIdx, List.getElem_map]
    split
    · exact hf _ _
    · exact hf _ _
    · rfl

/-- The outputs that belong into the table. -/
def loudspeakers (outputs : List (LoudspeakerOutput T)) : List (Fin outputs.length) :=
  (List.finRange outputs.length).filter fun out => (outputs.get out).model ≠ .subwoofer

/-- The angles from the position `offset`, in the order of the table. -/
def anglesFrom (r : VbapRenderer outputs) (offset : Position T) : List T :=
  r.sortedLoudspeakers.map fun ls => loudspeakerAngle (outputs.get ls.lsPtr).position offset

/-- The table has the right angles, is sorted, and the search finds an enclosing pair in it. -/
structure Searchable (r : VbapRenderer outputs) : Prop where
  complete : (r.sortedLoudspeakers.map (·.lsPtr)).Perm (loudspeakers outputs)
  angles : r.sortedLoudspeakers.map (·.angle) = anglesFrom r r.referenceOffsetPosition.current
  sorted : (r.sortedLoudspeakers.map (·.angle)).Pairwise (· ≤ ·)
  enclosed : ∀ direction, ∃ first second,
    chosenPair r.sortedLoudspeakers direction = some (first, second) ∧
      Encloses r.sortedLoudspeakers direction first second

theorem Searchable.loudspeakers_ne_nil {r : VbapRenderer outputs} (h : Searchable r) :
    loudspeakers outputs ≠ [] := by
  intro hnil
  have hcomplete := h.complete
  rw [hnil, List.perm_nil, List.map_eq_nil_iff] at hcomplete
  obtain ⟨first, second, hpair, -⟩ := h.enclosed 0
  rw [hcomplete] at hpair
  exact absurd hpair (by simp [chosenPair, circularPair])

/-- A table with the right loudspeakers and angles only has to be sorted. -/
theorem searchable_iff_sorted {r : VbapRenderer outputs} {maxAngle : T}
    {table : List (LoudspeakerEntry T outputs.length)}
    (htable : r.sortedLoudspeakers = updateValidSections maxAngle table)
    (hcomplete : (table.map (·.lsPtr)).Perm (loudspeakers outputs))
    (hangles : ∀ ls ∈ table, ls.angle =
      loudspeakerAngle (outputs.get ls.lsPtr).position r.referenceOffsetPosition.current)
    (hne : loudspeakers outputs ≠ []) :
    Searchable r ↔ (table.map (·.angle)).Pairwise (· ≤ ·) := by
  have hmap : r.sortedLoudspeakers.map (·.angle) = table.map (·.angle) := by
    rw [htable]
    exact map_updateValidSections (fun _ _ => rfl) _ _
  constructor
  · intro h
    rw [← hmap]
    exact h.sorted
  · intro h
    refine ⟨?_, ?_, hmap ▸ h, fun direction => exists_encloses ?_ (hmap ▸ h) direction⟩
    · rw [htable, map_updateValidSections (fun _ _ => rfl)]
      exact hcomplete
    · rw [hmap, anglesFrom, htable, map_updateValidSections (fun _ _ => rfl)]
      exact List.map_congr_left hangles
    · intro hnil
      rw [hnil, List.map_nil, eq_comm, List.map_eq_nil_iff] at hmap
      rw [hmap, List.map_nil, List.nil_perm] at hcomplete
      exact hne hcomplete

/-! ## The steps -/

variable {std : SortBy (LoudspeakerEntry.angle (T := T) (n := outputs.length))}

/-- The offset that `Process` takes over. -/
def blockOffset (state : RenderState T) : Position T :=
  let quarter : T := (90 : ℕ)
  state.referenceOffsetPosition.rotate (-quarter)

/-- The table after `_update_angles`. -/
def tableFrom (r : VbapRenderer outputs) (offset : Position T) :
    List (LoudspeakerEntry T outputs.length) :=
  r.sortedLoudspeakers.map fun ls =>
    { ls with angle := loudspeakerAngle (outputs.get ls.lsPtr).position offset }

theorem map_angle_tableFrom (r : VbapRenderer outputs) (offset : Position T) :
    (r.tableFrom offset).map (·.angle) = r.anglesFrom offset := by
  rw [tableFrom, List.map_map]
  rfl

theorem map_lsPtr_tableFrom (r : VbapRenderer outputs) (offset : Position T) :
    (r.tableFrom offset).map (·.lsPtr) = r.sortedLoudspeakers.map (·.lsPtr) := by
  rw [tableFrom, List.map_map]
  rfl

theorem angle_of_mem_tableFrom {r : VbapRenderer outputs} {offset : Position T}
    {ls : LoudspeakerEntry T outputs.length} (h : ls ∈ r.tableFrom offset) :
    ls.angle = loudspeakerAngle (outputs.get ls.lsPtr).position offset := by
  obtain ⟨ls, -, rfl⟩ := List.mem_map.1 h
  rfl

theorem current_process (r : VbapRenderer outputs) (state : RenderState T) :
    (r.process std state).referenceOffsetPosition.current = blockOffset state := by
  dsimp only [process]
  split
  · dsimp only [updateSections]
    split <;> rfl
  · rfl

theorem process_unchanged {r : VbapRenderer outputs} {state : RenderState T}
    (h : blockOffset state = r.referenceOffsetPosition.current) :
    (r.process std state).sortedLoudspeakers = r.sortedLoudspeakers := by
  have hchanged : (r.referenceOffsetPosition.assign (blockOffset state)).changed = false := by
    simp [BlockParameter.assign, BlockParameter.changed, h]
  dsimp only [process]
  split
  · rename_i htrue
    exact absurd (hchanged.symm.trans htrue) Bool.false_ne_true
  · rfl

open Classical in
/-- The angles are computed anew, and only a table that is wrapped around is sorted. -/
theorem process_changed {r : VbapRenderer outputs} {state : RenderState T}
    (h : blockOffset state ≠ r.referenceOffsetPosition.current) :
    (r.process std state).sortedLoudspeakers = updateValidSections r.maxAngle
      (if Wrapped (r.anglesFrom (blockOffset state)) then std.sort (r.tableFrom (blockOffset state))
        else r.tableFrom (blockOffset state)) := by
  have hchanged : (r.referenceOffsetPosition.assign (blockOffset state)).changed = true := by
    simp [BlockParameter.assign, BlockParameter.changed, h]
  rw [← map_angle_tableFrom]
  dsimp only [process]
  split
  · split
    · rename_i hback
      have hwrapped : Wrapped ((r.tableFrom (blockOffset state)).map (·.angle)) :=
        (backLtFront_iff _).1 hback
      rw [if_pos hwrapped]
      rfl
    · rename_i hback
      have hwrapped : ¬ Wrapped ((r.tableFrom (blockOffset state)).map (·.angle)) :=
        fun hw => hback ((backLtFront_iff _).2 hw)
      rw [if_neg hwrapped]
      rfl
  · rename_i hfalse
    exact absurd hchanged hfalse

/-- The offset stays the same, or the angles from the new one are in the order of the table, or they
are wrapped around. -/
def KeepsOrder (r : VbapRenderer outputs) (state : RenderState T) : Prop :=
  blockOffset state = r.referenceOffsetPosition.current ∨
    (r.anglesFrom (blockOffset state)).Pairwise (· ≤ ·) ∨ Wrapped (r.anglesFrom (blockOffset state))

/-- `Process` keeps a table searchable exactly if it keeps the order. -/
theorem Searchable.process_iff {r : VbapRenderer outputs} (h : Searchable r) (state : RenderState T) :
    Searchable (r.process std state) ↔ KeepsOrder r state := by
  by_cases hoffset : blockOffset state = r.referenceOffsetPosition.current
  · refine iff_of_true ?_ (.inl hoffset)
    have hsame : (r.process std state).sortedLoudspeakers = r.sortedLoudspeakers :=
      process_unchanged hoffset
    refine ⟨hsame ▸ h.complete, ?_, hsame ▸ h.sorted, hsame ▸ h.enclosed⟩
    rw [current_process, hoffset, anglesFrom, hsame]
    exact h.angles
  · rw [KeepsOrder, or_iff_right hoffset]
    have hperm : ∀ table, table.Perm (r.tableFrom (blockOffset state)) →
        (r.process std state).sortedLoudspeakers = updateValidSections r.maxAngle table →
        (Searchable (r.process std state) ↔ (table.map (·.angle)).Pairwise (· ≤ ·)) := by
      intro table hperm htable
      refine searchable_iff_sorted htable ?_ ?_ h.loudspeakers_ne_nil
      · refine (hperm.map _).trans ?_
        rw [map_lsPtr_tableFrom]
        exact h.complete
      · intro ls hls
        rw [current_process]
        exact angle_of_mem_tableFrom (hperm.mem_iff.1 hls)
    by_cases hwrapped : Wrapped (r.anglesFrom (blockOffset state))
    · rw [hperm _ (std.perm _) (by rw [process_changed hoffset, if_pos hwrapped])]
      exact iff_of_true (List.pairwise_map.2 (std.sorted _)) (.inr hwrapped)
    · rw [hperm _ (.refl _) (by rw [process_changed hoffset, if_neg hwrapped]),
        map_angle_tableFrom, or_iff_left hwrapped]

/-- The table that `load_reproduction_setup` leaves. -/
theorem searchable_load {maxAngle overhangAngle : Option T} {r : VbapRenderer outputs}
    (h : (new maxAngle overhangAngle).loadReproductionSetup std = .ok r) : Searchable r := by
  dsimp only [loadReproductionSetup, new, List.nil_append] at h
  split at h
  · exact absurd h (by simp)
  · rename_i hlength
    rw [List.length_map] at hlength
    cases h
    refine (searchable_iff_sorted rfl ?_ ?_ fun hnil => hlength ?_).2 ?_
    · refine ((std.perm _).map _).trans ?_
      simp only [updateAngles, List.map_map]
      exact .of_eq (List.map_id _)
    · intro ls hls
      obtain ⟨ls, -, rfl⟩ := List.mem_map.1 ((std.perm _).mem_iff.1 hls)
      rfl
    · rw [loudspeakers] at hnil
      rw [hnil]
      exact Nat.zero_lt_one
    · exact List.pairwise_map.2 (std.sorted _)

/-! ## Runs -/

/-- The blocks of a run, each with the state of the renderer at its beginning. -/
def step (std : SortBy (LoudspeakerEntry.angle (T := T) (n := outputs.length)))
    (r : VbapRenderer outputs) (state : RenderState T) : Option (VbapRenderer outputs) :=
  some (r.process std state)

theorem run_step_isSome (std : SortBy (LoudspeakerEntry.angle (T := T) (n := outputs.length)))
    (r : VbapRenderer outputs) (states : List (RenderState T)) :
    ∃ r', run (step std) r states = some r' := by
  induction states generalizing r with
  | nil => exact ⟨r, rfl⟩
  | cons state states ih => exact ih (r.process std state)

/-- **The search in the table**: from a loaded setup on, the table is searchable after every block
exactly if every block keeps the order. -/
theorem always_searchable_iff {maxAngle overhangAngle : Option T} {r : VbapRenderer outputs}
    (h : (new maxAngle overhangAngle).loadReproductionSetup std = .ok r)
    (states : List (RenderState T)) :
    Always (step std) Searchable r states ↔ AllSteps (step std) KeepsOrder r states := by
  obtain ⟨r', hrun⟩ := run_step_isSome std r states
  rw [always_iff (C := KeepsOrder) ?_ hrun, and_iff_right (searchable_load h)]
  intro t u state ht hstep
  cases hstep
  exact ht.process_iff state

/-! ## Three loudspeakers around the origin -/

theorem loudspeakerAngle_real (position offset : Position ℝ) :
    loudspeakerAngle position offset =
      wrapTwoPi (Complex.arg ⟨position.x - offset.x, position.y - offset.y⟩) := by
  rw [loudspeakerAngle, deg2rad_orientation]
  rfl

theorem arg_right {x : ℝ} (h : 0 ≤ x) : Complex.arg ⟨x, 0⟩ = 0 := Complex.arg_ofReal_of_nonneg h

theorem arg_left {x : ℝ} (h : x < 0) : Complex.arg ⟨x, 0⟩ = Real.pi := Complex.arg_ofReal_of_neg h

def loudspeakerAt (x y : ℝ) : LoudspeakerOutput ℝ :=
  { position := ⟨x, y⟩, orientation := ⟨0⟩, model := .normal, weight := 1, delay := 0,
    connectTo := none }

/-- To the right, in front and to the left. -/
def semicircle : List (LoudspeakerOutput ℝ) :=
  [loudspeakerAt 1 0, loudspeakerAt 0 1, loudspeakerAt (-1) 0]

/-- The entries of the semicircle with their angles from the origin. -/
noncomputable def semicircleTable : List (LoudspeakerEntry ℝ 3) :=
  [⟨0, false, (Fin.last 0).castSucc.castSucc⟩, ⟨Real.pi / ((2 : ℕ) : ℝ), false, (Fin.last 1).castSucc⟩,
    ⟨Real.pi, false, Fin.last 2⟩]

noncomputable def semicircleWith (table : List (LoudspeakerEntry ℝ semicircle.length)) :
    VbapRenderer semicircle :=
  { (new none none : VbapRenderer semicircle) with
    sortedLoudspeakers := updateValidSections (deg2rad ((180 : ℕ) : ℝ)) table }

/-- The renderer when the semicircle has been loaded. -/
noncomputable def semicircleRenderer : VbapRenderer semicircle := semicircleWith semicircleTable

theorem load_semicircle :
    (new none none).loadReproductionSetup (SortBy.merge _) = .ok semicircleRenderer := by
  have hright : loudspeakerAngle ⟨1, 0⟩ (⟨0, 0⟩ : Position ℝ) = 0 := by
    rw [loudspeakerAngle_real, sub_zero, sub_zero, arg_right zero_le_one, wrapTwoPi_zero]
  have hfront : loudspeakerAngle ⟨0, 1⟩ (⟨0, 0⟩ : Position ℝ) = Real.pi / 2 := by
    rw [loudspeakerAngle_real, sub_zero, sub_zero, ← Complex.I, Complex.arg_I]
    exact wrapTwoPi_of_nonneg (by positivity) (by linarith [Real.pi_pos])
  have hleft : loudspeakerAngle ⟨-1, 0⟩ (⟨0, 0⟩ : Position ℝ) = Real.pi := by
    rw [loudspeakerAngle_real, sub_zero, sub_zero, arg_left neg_one_lt_zero]
    exact wrapTwoPi_of_nonneg Real.pi_pos.le (by linarith [Real.pi_pos])
  have htable : [(⟨loudspeakerAngle ⟨1, 0⟩ ⟨0, 0⟩, false, 0⟩ : LoudspeakerEntry ℝ 3),
      ⟨loudspeakerAngle ⟨0, 1⟩ ⟨0, 0⟩, false, 1⟩, ⟨loudspeakerAngle ⟨-1, 0⟩ ⟨0, 0⟩, false, 2⟩] =
      semicircleTable := by
    rw [hright, hfront, hleft, semicircleTable, Nat.cast_ofNat]
    rfl
  have hsorted : (SortBy.merge LoudspeakerEntry.angle).sort semicircleTable = semicircleTable := by
    refine List.mergeSort_of_pairwise ?_
    have hpi := Real.pi_pos
    simp only [semicircleTable, List.pairwise_cons, List.mem_cons, List.not_mem_nil, or_false,
      forall_eq_or_imp, forall_eq, decide_eq_true_eq, IsEmpty.forall_iff, implies_true,
      List.Pairwise.nil, and_true, Nat.cast_ofNat]
    exact ⟨⟨by positivity, hpi.le⟩, by linarith⟩
  have hload : (new none none).loadReproductionSetup (SortBy.merge _) =
      .ok (semicircleWith ((SortBy.merge (LoudspeakerEntry.angle (n := 3))).sort [
        ⟨loudspeakerAngle ⟨1, 0⟩ ⟨0, 0⟩, false, 0⟩, ⟨loudspeakerAngle ⟨0, 1⟩ ⟨0, 0⟩, false, 1⟩,
        ⟨loudspeakerAngle ⟨-1, 0⟩ ⟨0, 0⟩, false, 2⟩])) := rfl
  rw [hload, htable, hsorted]
  rfl

/-- The state in which only the offset is set. -/
noncomputable def offsetState (x y : ℝ) : RenderState ℝ :=
  { RenderState.new with referenceOffsetPosition := ⟨x, y⟩ }

/-- The offset is turned to the right. -/
theorem blockOffset_real (state : RenderState ℝ) :
    blockOffset state = ⟨state.referenceOffsetPosition.y, -state.referenceOffsetPosition.x⟩ := by
  generalize hp : state.referenceOffsetPosition = p
  have hphi : deg2rad (p.orientation.azimuth + -((90 : ℕ) : ℝ)) =
      Complex.arg ⟨p.x, p.y⟩ - Real.pi / 2 := by
    rw [deg2rad, add_mul, ← deg2rad, deg2rad_orientation, ← deg2rad, deg2rad_real]
    push_cast
    ring
  rw [blockOffset, hp, Position.rotate, hphi, length_real]
  refine congrArg₂ Position.mk ?_ ?_
  · change _ * Real.cos _ = _
    rw [Real.cos_sub_pi_div_two, Complex.norm_mul_sin_arg]
  · change _ * Real.sin _ = _
    rw [Real.sin_sub_pi_div_two, mul_neg, Complex.norm_mul_cos_arg]

theorem always_searchable_semicircle :
    Always (step (SortBy.merge _)) Searchable semicircleRenderer [offsetState 0 0] := by
  refine (always_searchable_iff load_semicircle _).2 ((allSteps_cons rfl).2 ⟨.inl ?_, allSteps_nil⟩)
  rw [blockOffset_real]
  exact congrArg (Position.mk 0) neg_zero

/-- From a position two metres behind the origin the left and the right loudspeaker are in the same
direction, and the one in front is to the left of both. -/
theorem not_keepsOrder_behind : ¬ KeepsOrder semicircleRenderer (offsetState 0 (-2)) := by
  have hoffset : blockOffset (offsetState 0 (-2)) = ⟨-2, 0⟩ := by
    rw [blockOffset_real]
    simp [offsetState]
  have hright : loudspeakerAngle ⟨1, 0⟩ (⟨-2, 0⟩ : Position ℝ) = 0 := by
    rw [loudspeakerAngle_real, sub_zero, arg_right (by norm_num), wrapTwoPi_zero]
  have hleft : loudspeakerAngle ⟨-1, 0⟩ (⟨-2, 0⟩ : Position ℝ) = 0 := by
    rw [loudspeakerAngle_real, sub_zero, arg_right (by norm_num), wrapTwoPi_zero]
  have hfront : 0 < loudspeakerAngle ⟨0, 1⟩ (⟨-2, 0⟩ : Position ℝ) := by
    rw [loudspeakerAngle_real]
    generalize hz : (⟨0 - -2, 1 - 0⟩ : ℂ) = z
    have hpos : 0 < z.arg := by
      refine lt_of_le_of_ne (Complex.arg_nonneg_iff.2 (by simp [← hz])) fun h => ?_
      have him := (Complex.arg_eq_zero_iff.1 h.symm).2
      simp [← hz] at him
    rw [wrapTwoPi_of_nonneg hpos.le (by linarith [Complex.arg_le_pi z, Real.pi_pos])]
    exact hpos
  have hangles : semicircleRenderer.anglesFrom ⟨-2, 0⟩ =
      [loudspeakerAngle ⟨1, 0⟩ ⟨-2, 0⟩, loudspeakerAngle ⟨0, 1⟩ ⟨-2, 0⟩,
        loudspeakerAngle ⟨-1, 0⟩ ⟨-2, 0⟩] :=
    map_updateValidSections (fun _ _ => rfl) _ semicircleTable
  rw [KeepsOrder, hoffset, hangles, hright, hleft]
  rintro (h | h | h)
  · have hx := congrArg Position.x h
    exact absurd hx (by norm_num [semicircleRenderer, semicircleWith, new, BlockParameter.new])
  · simp only [List.pairwise_cons, List.mem_cons, List.not_mem_nil, or_false, forall_eq] at h
    exact absurd h.2.1 (not_le.2 hfront)
  · obtain ⟨back, front, hback, hfront, hlt⟩ := h
    cases hback
    cases hfront
    exact lt_irrefl _ hlt

theorem not_always_searchable :
    ¬ ∀ (outputs : List (LoudspeakerOutput ℝ)) (std : SortBy (LoudspeakerEntry.angle (T := ℝ)))
      (maxAngle overhangAngle : Option ℝ) (r : VbapRenderer outputs) (states : List (RenderState ℝ)),
      (new maxAngle overhangAngle).loadReproductionSetup std = .ok r →
        Always (step std) Searchable r states := by
  intro h
  have hsearchable := h semicircle (SortBy.merge _) none none _ [offsetState 0 (-2)] load_semicircle
    [offsetState 0 (-2)] [] _ rfl rfl
  exact not_keepsOrder_behind (((searchable_load load_semicircle).process_iff _).1 hsearchable)

end Ssr.VbapRenderer
