import Ssr.Apf.Proof.ConvolverOutput
import Ssr.Renderer.BinauralRenderer
import Ssr.Renderer.BrsRenderer
import Mathlib.Algebra.Field.Rat
import Mathlib.Tactic.NormNum

/-!
# One filter for each block

`settings` are the filters that a source sets, block by block; `newestPartition_settings` finds the
partition of an older block's filter in them. So the pointers are always those of the right filters.
The nodes of the HRTFs do not change, but an interpolated filter is kept in `temporary_hrtf`, where
the next one overwrites it while its later partitions are still needed (`oneFilter_iff`).
-/

set_option autoImplicit false

namespace Apf

open Conv

/-! ## Contents of nodes -/

namespace Conv

section
variable {α : Type}

/-- What a node is taken for; there are no coefficients if it is flagged zero. -/
def FftNode.contents (node : FftNode α) : Option (Buffer α) :=
  if node.zero then none else some node.data

/-- The contents of the partition `k`; a missing partition is empty. -/
def contents (filter : List (FftNode α)) (k : ℕ) : Option (Buffer α) :=
  filter[k]?.bind FftNode.contents

/-- What the nodes held before does not matter. -/
theorem contents_transformNested [Zero α] (f : α → α → α) {out out' : List (FftNode α)}
    (h : out.length = out'.length) (in1 in2 : List (FftNode α)) (k : ℕ) :
    contents (transformNested f in1 in2 out) k = contents (transformNested f in1 in2 out') k := by
  induction out generalizing out' in1 in2 k with
  | nil =>
    obtain rfl := List.length_eq_zero_iff.1 h.symm
    rfl
  | cons result out ih =>
    cases out' with
    | nil => cases h
    | cons result' out' =>
      cases k with
      | succ k =>
        simp only [contents, transformNested, List.getElem?_cons_succ]
        exact ih (Nat.succ.inj h) in1.tail in2.tail k
      | zero =>
        simp only [contents, transformNested, List.getElem?_cons_zero, Option.bind_some]
        cases in1.head?.filter (!·.zero) with
        | none =>
          cases in2.head?.filter (!·.zero) with
          | none => rfl
          | some it2 => rfl
        | some it1 =>
          cases in2.head?.filter (!·.zero) with
          | none => rfl
          | some it2 => rfl

end

end Conv

/-! ## Filters that follow parameters -/

section Settings
variable {B ι π : Type} [DecidableEq ι] (parameter : B → ι) (initial : ι) (filter : B → List π)

/-- The parameter of the last block of `past`. -/
def lastParameter (past : List B) : ι := (past.head?.map parameter).getD initial

/-- The filters that are set in the blocks of `past`: none if the parameter does not change. -/
def settings : List B → List (Option (List π))
  | [] => []
  | b :: past =>
    (if parameter b = lastParameter parameter initial past then none else some (filter b)) ::
      settings past

variable {parameter initial filter} {past : List B}

theorem drop_settings (k : ℕ) :
    (settings parameter initial filter past).drop k =
      settings parameter initial filter (past.drop k) := by
  induction past generalizing k with
  | nil => simp [settings]
  | cons b past ih =>
    cases k with
    | zero => rfl
    | succ k => exact ih k

/-- **The newest filter** is that of the newest block, whether it has been set there or before. -/
theorem newestPartition_settings {e : π} {k : ℕ} {b : B}
    (hinitial : ∀ b' ∈ b :: past, parameter b' ≠ initial)
    (hfilter : ∀ b₁ b₂, parameter b₁ = parameter b₂ → filter b₁ = filter b₂) :
    newestPartition e k (settings parameter initial filter (b :: past)) =
      (filter b)[k]?.getD e := by
  induction past generalizing b with
  | nil =>
    have hchanged : parameter b ≠ lastParameter parameter initial [] :=
      hinitial b List.mem_cons_self
    rw [settings, if_neg hchanged]
    rfl
  | cons b' past ih =>
    rw [settings]
    split
    · rename_i hsame
      rw [newestPartition_none, ih fun b'' hb'' => hinitial b'' (List.mem_cons_of_mem b hb''),
        hfilter b b' hsame]
    · rfl

/-- The pointer `k` belongs to the filter of the block `k` blocks ago. -/
theorem filterPtrs_settings {o : Conv.Output π} {e : π} {partitions : ℕ}
    (h : o.Holds e partitions (settings parameter initial filter past))
    (hinitial : ∀ b ∈ past, parameter b ≠ initial)
    (hfilter : ∀ b₁ b₂, parameter b₁ = parameter b₂ → filter b₁ = filter b₂) {k : ℕ}
    (hk : k < partitions) :
    o.filterPtrs[k]? = some (past[k]?.elim e fun b => (filter b)[k]?.getD e) := by
  rw [h.filterPtrs, List.getElem?_map, List.getElem?_range hk, Option.map_some, drop_settings]
  congr 1
  cases hb : past[k]? with
  | none =>
    rw [List.drop_eq_nil_of_le (List.getElem?_eq_none_iff.1 hb)]
    rfl
  | some b =>
    obtain ⟨hlt, rfl⟩ := List.getElem?_eq_some_iff.1 hb
    rw [List.drop_eq_getElem_cons hlt]
    refine newestPartition_settings (fun b' hb' => hinitial b' ?_) hfilter
    rw [← List.drop_eq_getElem_cons hlt] at hb'
    exact List.mem_of_mem_drop hb'

/-- The filters of two channels are set in the same blocks. -/
theorem settings_parallel {filter' : B → List π} (i : ℕ) :
    (settings parameter initial filter past)[i]?.join = none ↔
      (settings parameter initial filter' past)[i]?.join = none := by
  induction past generalizing i with
  | nil => rfl
  | cons b past ih =>
    cases i with
    | succ i => exact ih i
    | zero =>
      simp only [settings, List.getElem?_cons_zero]
      split
      · rfl
      · simp

end Settings

namespace SourceChannel

variable {σ π α : Type} {c : SourceChannel σ π α} {e : π} {partitions : ℕ}
  {past : List (Option (List π))}

/-- `combine` does not change the convolver output. -/
theorem combine_output (input : σ) : (c.combine input).1.output = c.output := by
  unfold combine
  cases c.crossfadeMode with
  | nothing => rfl
  | constant => rfl
  | change => rfl
  | fadeIn => rfl
  | fadeOut => rfl

theorem combine_holds (h : c.output.Holds e partitions past) (input : σ) :
    (c.combine input).1.output.Holds e partitions past := by
  rw [combine_output]
  exact h

/-- Rotate, and set the new filter if there is one. -/
theorem process_output_eq (c : SourceChannel σ π α) (input : σ) (mode : CombineChannelsResult)
    (queuesEmpty : Bool) (filter : Option (List π)) (weight : BlockParameter α) :
    (c.process input mode queuesEmpty filter weight).output =
      let o := if queuesEmpty then c.output else c.output.rotateQueues
      filter.elim o o.setFilter := by
  unfold process convolveAndMore
  cases queuesEmpty <;> cases filter <;> split <;> rfl

theorem process_holds (h : c.output.Holds e partitions past) {queuesEmpty : Bool}
    (hempty : queuesEmpty = true → ∀ i < partitions - 1, past[i]?.join = none)
    {filter : Option (List π)} (hne : filter ≠ some []) (input : σ) (mode : CombineChannelsResult)
    (weight : BlockParameter α) :
    (c.process input mode queuesEmpty filter weight).output.Holds e partitions (filter :: past) := by
  rw [process_output_eq]
  exact h.update hempty hne

end SourceChannel

end Apf

namespace Ssr

open Apf Conv Lib

variable {σ α : Type}

/-! ## The binaural renderer -/

namespace Binaural

variable [Field α] [DecidableEq α] (cfg : Config α)

/-- The filter that a block selects for the channel `i`: an HRTF or its interpolation with the
neutral filter. -/
def Config.selected (i : ℕ) (b : Block σ α) : List (FftNode α) :=
  let hrtf := cfg.hrtfs (2 * b.hrtfIndex + i)
  if b.interpFactor = 0 then hrtf
  else transformNested (fun one two => (1 - b.interpFactor) * one + b.interpFactor * two) hrtf
    cfg.neutralFilter (List.replicate cfg.partitions .new)

/-- What is at an address now. -/
def Channel.contents (c : Channel σ α) : NodePtr → Option (Buffer α)
  | .empty => none
  | .hrtf index partition => Conv.contents (cfg.hrtfs index) partition
  | .temporary partition => Conv.contents c.temporaryHrtf partition

/-- After the blocks of `past`, which begins with the newest one, the pointer `k` leads to the
partition `k` of the filter that was selected `k` blocks ago. -/
def Channel.OneFilter (c : Channel σ α) (i : ℕ) (past : List (Block σ α)) : Prop :=
  ∀ k < cfg.partitions, ∃ ptr, c.output.filterPtrs[k]? = some ptr ∧
    c.contents cfg ptr = past[k]?.bind fun b => Conv.contents (cfg.selected i b) k

def Run.OneFilter (r : Run σ α) (past : List (Block σ α)) : Prop :=
  r.source.left.OneFilter cfg 0 past ∧ r.source.right.OneFilter cfg 1 past

/-- The last block whose filter is interpolated. -/
def newestInterpolated (past : List (Block σ α)) : Option (Block σ α) :=
  past.find? (·.interpFactor ≠ 0)

/-- The interpolated filters whose later partitions are still to be used have these partitions in
common with the last one that has been written to `temporary_hrtf`. -/
def Config.Kept (past : List (Block σ α)) : Prop :=
  ∀ k, 1 ≤ k → k < cfg.partitions → ∀ b, past[k]? = some b → b.interpFactor ≠ 0 →
    ∀ last, newestInterpolated past = some last → ∀ i < 2,
      contents (cfg.selected i last) k = contents (cfg.selected i b) k

/-- A filter is set again when this changes. -/
def parameters (b : Block σ α) : ℕ × α := (b.hrtfIndex, b.interpFactor)

/-- The addresses of the filter of a block. -/
def filterPtrs (i : ℕ) (b : Block σ α) : List NodePtr :=
  if b.interpFactor = 0 then hrtfPtrs cfg (2 * b.hrtfIndex + i)
  else (List.range cfg.partitions).map .temporary

/-- The filters of the blocks of `past` that have been set. -/
def filterSettings (i : ℕ) (past : List (Block σ α)) : List (Option (List NodePtr)) :=
  settings parameters (2 ^ 64 - 1, -1) (filterPtrs cfg i) past

/-- The state of a channel after the blocks of `past`. -/
structure Channel.Recorded (c : Channel σ α) (i : ℕ) (past : List (Block σ α)) : Prop where
  output : c.output.Holds .empty cfg.partitions (filterSettings cfg i past)
  length : c.temporaryHrtf.length = cfg.partitions
  temporary : ∀ b, newestInterpolated past = some b → ∀ k,
    Conv.contents c.temporaryHrtf k = Conv.contents (cfg.selected i b) k

/-- The state of a source after the blocks of `past`. -/
structure Run.Recorded (r : Run σ α) (past : List (Block σ α)) : Prop where
  left : r.source.left.Recorded cfg 0 past
  right : r.source.right.Recorded cfg 1 past
  last : (r.source.hrtfIndex.current, r.source.interpFactor.current) =
    lastParameter parameters (2 ^ 64 - 1, -1) past

variable {cfg} {c : Channel σ α} {i : ℕ} {b : Block σ α} {past : List (Block σ α)} {r r' : Run σ α}

omit [DecidableEq α] in
theorem parameters_ne (h : b.hrtfIndex < 2 ^ 64 - 1) : parameters b ≠ (2 ^ 64 - 1, -1) :=
  fun heq => h.ne (congrArg Prod.fst heq)

theorem selected_congr {b₁ b₂ : Block σ α} (h : parameters b₁ = parameters b₂) :
    cfg.selected i b₁ = cfg.selected i b₂ := by
  obtain ⟨hindex, hfactor⟩ := Prod.mk.inj h
  rw [Config.selected, Config.selected, hindex, hfactor]

theorem filterPtrs_congr {b₁ b₂ : Block σ α} (h : parameters b₁ = parameters b₂) :
    filterPtrs cfg i b₁ = filterPtrs cfg i b₂ := by
  obtain ⟨hindex, hfactor⟩ := Prod.mk.inj h
  rw [filterPtrs, filterPtrs, hindex, hfactor]

theorem filterPtrs_ne_nil (hhrtfs : ∀ index, cfg.hrtfs index ≠ [])
    (hpartitions : 0 < cfg.partitions) : filterPtrs cfg i b ≠ [] := by
  unfold filterPtrs hrtfPtrs
  split
  · simpa using hhrtfs _
  · simpa using hpartitions.ne'

theorem newestInterpolated_of_ne (h : b.interpFactor ≠ 0) :
    newestInterpolated (b :: past) = some b := by
  simp [newestInterpolated, h]

theorem newestInterpolated_of_eq (h : b.interpFactor = 0) :
    newestInterpolated (b :: past) = newestInterpolated past := by
  simp [newestInterpolated, h]

/-- **One block of a channel.** -/
theorem Channel.Recorded.process (h : c.Recorded cfg i past)
    (hhrtfs : ∀ index, cfg.hrtfs index ≠ []) (hpartitions : 0 < cfg.partitions)
    (hvalid : b.hrtfIndex < 2 ^ 64 - 1) {queuesEmpty hrtfChanged : Bool}
    (hempty : queuesEmpty = true →
      ∀ j < cfg.partitions - 1, (filterSettings cfg i past)[j]?.join = none)
    (hchanged : hrtfChanged = true ↔
      parameters b ≠ lastParameter parameters (2 ^ 64 - 1, -1) past)
    (mode : CombineChannelsResult) (weight : BlockParameter α) :
    (c.process cfg i b mode queuesEmpty hrtfChanged weight).Recorded cfg i (b :: past) := by
  have hsettings : filterSettings cfg i (b :: past) =
      (if parameters b = lastParameter parameters (2 ^ 64 - 1, -1) past then none
        else some (filterPtrs cfg i b)) :: filterSettings cfg i past := rfl
  unfold Channel.process
  cases hrtfChanged with
  | false =>
    have hsame : parameters b = lastParameter parameters (2 ^ 64 - 1, -1) past := by
      by_contra hne
      cases hchanged.2 hne
    rw [if_pos hsame] at hsettings
    refine ⟨?_, h.length, fun last hlast => ?_⟩
    · rw [hsettings]
      exact SourceChannel.process_holds h.output hempty (Option.some_ne_none []).symm b.input mode
        weight
    by_cases hfactor : b.interpFactor = 0
    · rw [newestInterpolated_of_eq hfactor] at hlast
      exact h.temporary last hlast
    -- the block before has the same filter
    · rw [newestInterpolated_of_ne hfactor] at hlast
      obtain rfl := Option.some.inj hlast
      cases past with
      | nil => exact absurd hsame (parameters_ne hvalid)
      | cons b' past =>
        rw [selected_congr hsame]
        refine h.temporary b' (newestInterpolated_of_ne ?_)
        rwa [← (Prod.mk.inj hsame).2]
  | true =>
    rw [if_neg (hchanged.1 rfl)] at hsettings
    have hne : some (filterPtrs cfg i b) ≠ some [] := fun heq =>
      filterPtrs_ne_nil hhrtfs hpartitions (Option.some.inj heq)
    have hprocess := SourceChannel.process_holds h.output hempty hne b.input mode weight
    rw [← hsettings] at hprocess
    by_cases hfactor : b.interpFactor = 0
    · rw [filterPtrs, if_pos hfactor] at hprocess
      rw [if_neg (by simp), if_pos hfactor]
      refine ⟨hprocess, h.length, fun last hlast => ?_⟩
      rw [newestInterpolated_of_eq hfactor] at hlast
      exact h.temporary last hlast
    · rw [filterPtrs, if_neg hfactor] at hprocess
      rw [if_neg (by simp), if_neg hfactor]
      dsimp only
      refine ⟨?_, ?_, fun last hlast k => ?_⟩
      · rw [transformNested_length, h.length]
        exact hprocess
      · rw [transformNested_length, h.length]
      · rw [newestInterpolated_of_ne hfactor] at hlast
        obtain rfl := Option.some.inj hlast
        rw [Config.selected, if_neg hfactor]
        exact contents_transformNested _ (by rw [h.length, List.length_replicate]) _ _ k

theorem Channel.Recorded.combine (h : c.Recorded cfg i past) (input : σ) :
    ({ c with toSourceChannel := (c.combine input).1 } : Channel σ α).Recorded cfg i past where
  output := SourceChannel.combine_holds h.output input
  length := h.length
  temporary := h.temporary

/-- The contents of a node are right if it belongs to an HRTF, or if its contents have been kept. -/
theorem Channel.Recorded.iff_kept (h : c.Recorded cfg i past)
    (hvalid : ∀ b ∈ past, b.hrtfIndex < 2 ^ 64 - 1) :
    c.OneFilter cfg i past ↔ ∀ k < cfg.partitions, ∀ b, past[k]? = some b → b.interpFactor ≠ 0 →
      ∀ last, newestInterpolated past = some last →
        Conv.contents (cfg.selected i last) k = Conv.contents (cfg.selected i b) k := by
  refine forall_congr' fun k => forall_congr' fun hk => ?_
  rw [filterPtrs_settings h.output (fun b hb => parameters_ne (hvalid b hb))
    (fun _ _ => filterPtrs_congr) hk]
  simp only [Option.some.injEq, exists_eq_left']
  cases hb : past[k]? with
  | none => simp [contents]
  | some b =>
    simp only [Option.elim_some, Option.bind_some, Option.some.injEq, forall_eq']
    by_cases hfactor : b.interpFactor = 0
    · simp only [hfactor, ne_eq, not_true_eq_false, false_implies, iff_true]
      rw [filterPtrs, if_pos hfactor, hrtfPtrs, Config.selected, if_pos hfactor,
        List.getElem?_map]
      rcases Nat.lt_or_ge k (cfg.hrtfs (2 * b.hrtfIndex + i)).length with hlt | hge
      · rw [List.getElem?_range hlt]
        rfl
      · rw [List.getElem?_eq_none (by simpa using hge), Conv.contents, List.getElem?_eq_none hge]
        rfl
    · obtain ⟨last, hlast⟩ : ∃ last, newestInterpolated past = some last := by
        rw [← Option.isSome_iff_exists, newestInterpolated, List.find?_isSome]
        exact ⟨b, List.mem_of_getElem? hb, by simpa using hfactor⟩
      rw [filterPtrs, if_neg hfactor, List.getElem?_map, List.getElem?_range hk]
      simp only [hlast, ne_eq, hfactor, not_false_eq_true, true_implies, Option.some.injEq,
        forall_eq']
      rw [← h.temporary last hlast]
      rfl

theorem Run.recorded_start : (Run.start cfg : Run σ α).Recorded cfg [] where
  left := ⟨Output.new_holds, List.length_replicate, fun _ h => by cases h⟩
  right := ⟨Output.new_holds, List.length_replicate, fun _ h => by cases h⟩
  last := rfl

/-- **One block of a source.** -/
theorem Run.Recorded.step (h : r.Recorded cfg past) (hhrtfs : ∀ index, cfg.hrtfs index ≠ [])
    (hpartitions : 0 < cfg.partitions) (hvalid : b.hrtfIndex < 2 ^ 64 - 1)
    (hs : r.step cfg b = some r') : r'.Recorded cfg (b :: past) := by
  cases hs
  have hchanged : ((r.source.hrtfIndex.assign b.hrtfIndex).changed ||
      (r.source.interpFactor.assign b.interpFactor).changed) = true ↔
        parameters b ≠ lastParameter parameters (2 ^ 64 - 1, -1) past := by
    rw [← h.last, ne_eq, parameters, Prod.mk.injEq, not_and_or, Bool.or_eq_true]
    exact or_congr decide_eq_true_iff decide_eq_true_iff
  have hempty := h.left.output.queuesEmpty_iff.1
  have hleft := h.left.process hhrtfs hpartitions hvalid hempty hchanged
  have hright := h.right.process hhrtfs hpartitions hvalid
    (fun htrue j hj => settings_parallel j |>.1 (hempty htrue j hj)) hchanged
  exact ⟨(hleft _ _).combine b.input, (hright _ _).combine b.input, rfl⟩

/-- **All blocks of a source.** -/
theorem Run.recorded_run (hhrtfs : ∀ index, cfg.hrtfs index ≠ []) (hpartitions : 0 < cfg.partitions)
    {bs : List (Block σ α)} (hvalid : ∀ b ∈ bs, b.hrtfIndex < 2 ^ 64 - 1)
    (hr : run (Run.step cfg) (Run.start cfg) bs = some r) : r.Recorded cfg bs.reverse := by
  induction bs using List.reverseRecOn generalizing r with
  | nil =>
    cases hr
    exact recorded_start
  | append_singleton bs b ih =>
    rw [run_snoc, Option.bind_eq_some_iff] at hr
    obtain ⟨r', hr', hs⟩ := hr
    rw [List.reverse_append, List.reverse_singleton, List.singleton_append]
    exact (ih (fun b' hb' => hvalid b' (List.mem_append_left [b] hb')) hr').step hhrtfs hpartitions
      (hvalid b (List.mem_append_right bs List.mem_cons_self)) hs

theorem Run.Recorded.iff_kept (h : r.Recorded cfg past)
    (hvalid : ∀ b ∈ past, b.hrtfIndex < 2 ^ 64 - 1) : r.OneFilter cfg past ↔ cfg.Kept past := by
  rw [Run.OneFilter, h.left.iff_kept hvalid, h.right.iff_kept hvalid]
  constructor
  · rintro ⟨hleft, hright⟩ k - hk b hb hfactor last hlast i hi
    obtain rfl | rfl : i = 0 ∨ i = 1 := by omega
    · exact hleft k hk b hb hfactor last hlast
    · exact hright k hk b hb hfactor last hlast
  · intro hkept
    have hchannel : ∀ i < 2, ∀ k < cfg.partitions, ∀ b, past[k]? = some b → b.interpFactor ≠ 0 →
        ∀ last, newestInterpolated past = some last →
          contents (cfg.selected i last) k = contents (cfg.selected i b) k := by
      intro i hi k hk b hb hfactor last hlast
      cases k with
      | succ k => exact hkept (k + 1) (Nat.succ_pos k) hk b hb hfactor last hlast i hi
      | zero =>
        -- the filter of the newest block has just been written
        cases past with
        | nil => cases hb
        | cons b' past =>
          obtain rfl := Option.some.inj hb
          rw [newestInterpolated_of_ne hfactor] at hlast
          obtain rfl := Option.some.inj hlast
          rfl
    exact ⟨hchannel 0 (by decide), hchannel 1 (by decide)⟩

end Binaural

/-! ## The BRS renderer -/

namespace Brs

variable [Ring α] (cfg : Config α)

/-- The filter that a block selects for the channel `i`. -/
def Config.selected (i : ℕ) (b : Block σ α) : List (FftNode α) := cfg.brtfSet (2 * b.brtfIndex + i)

/-- What is at an address. -/
def Config.contents : NodePtr → Option (Buffer α)
  | .empty => none
  | .brtf index partition => Conv.contents (cfg.brtfSet index) partition

/-- After the blocks of `past`, which begins with the newest one, the pointer `k` leads to the
partition `k` of the filter that was selected `k` blocks ago. -/
def OneFilter (c : Channel σ α) (i : ℕ) (past : List (Block σ α)) : Prop :=
  ∀ k < cfg.partitions, ∃ ptr, c.output.filterPtrs[k]? = some ptr ∧
    cfg.contents ptr = past[k]?.bind fun b => Conv.contents (cfg.selected i b) k

def Run.OneFilter (r : Run σ α) (past : List (Block σ α)) : Prop :=
  Brs.OneFilter cfg r.source.left 0 past ∧ Brs.OneFilter cfg r.source.right 1 past

/-- The filters of the blocks of `past` that have been set. -/
def filterSettings (i : ℕ) (past : List (Block σ α)) : List (Option (List NodePtr)) :=
  settings Block.brtfIndex (2 ^ 64 - 1) (fun b => brtfPtrs cfg (2 * b.brtfIndex + i)) past

/-- The state of a source after the blocks of `past`. -/
structure Run.Recorded (r : Run σ α) (past : List (Block σ α)) : Prop where
  left : r.source.left.output.Holds .empty cfg.partitions (filterSettings cfg 0 past)
  right : r.source.right.output.Holds .empty cfg.partitions (filterSettings cfg 1 past)
  last : r.source.brtfIndex.current = lastParameter Block.brtfIndex (2 ^ 64 - 1) past

variable {cfg} {i : ℕ} {b : Block σ α} {past : List (Block σ α)} {r r' : Run σ α}

theorem Run.recorded_start : (Run.start cfg : Run σ α).Recorded cfg [] :=
  ⟨Output.new_holds, Output.new_holds, rfl⟩

omit [Ring α] in
/-- The nodes of the filters do not change. -/
theorem oneFilter_of_holds {c : Channel σ α}
    (h : c.output.Holds .empty cfg.partitions (filterSettings cfg i past))
    (hvalid : ∀ b ∈ past, b.brtfIndex < 2 ^ 64 - 1) : OneFilter cfg c i past := by
  intro k hk
  refine ⟨_, filterPtrs_settings h (fun b hb => (hvalid b hb).ne)
    (fun b₁ b₂ hsame => by rw [hsame]) hk, ?_⟩
  cases past[k]? with
  | none => rfl
  | some b =>
    rw [Option.elim_some, Option.bind_some, brtfPtrs, List.getElem?_map, Config.selected]
    rcases Nat.lt_or_ge k (cfg.brtfSet (2 * b.brtfIndex + i)).length with hlt | hge
    · rw [List.getElem?_range hlt]
      rfl
    · rw [List.getElem?_eq_none (by simpa using hge), Conv.contents, List.getElem?_eq_none hge]
      rfl

variable [DecidableEq α]

/-- **One block of a source.** -/
theorem Run.Recorded.step (h : r.Recorded cfg past) (hbrtfs : ∀ index, cfg.brtfSet index ≠ [])
    (hs : r.step cfg b = some r') : r'.Recorded cfg (b :: past) := by
  cases hs
  have hempty := h.left.queuesEmpty_iff.1
  have hchanged : (r.source.brtfIndex.assign b.brtfIndex).changed = true ↔
      b.brtfIndex ≠ lastParameter Block.brtfIndex (2 ^ 64 - 1) past := by
    rw [← h.last]
    exact decide_eq_true_iff
  have hsettings : ∀ i, filterSettings cfg i (b :: past) =
      (if (r.source.brtfIndex.assign b.brtfIndex).changed then
        some (brtfPtrs cfg (2 * b.brtfIndex + i)) else none) :: filterSettings cfg i past := by
    intro i
    rw [filterSettings, settings]
    congr 1
    by_cases hsame : b.brtfIndex = lastParameter Block.brtfIndex (2 ^ 64 - 1) past
    · rw [if_pos hsame, if_neg fun h => hchanged.1 h hsame]
    · rw [if_neg hsame, if_pos (hchanged.2 hsame)]
  have hne : ∀ i, (if (r.source.brtfIndex.assign b.brtfIndex).changed then
      some (brtfPtrs cfg (2 * b.brtfIndex + i)) else none) ≠ some [] := by
    intro i
    split
    · simpa [brtfPtrs] using hbrtfs (2 * b.brtfIndex + i)
    · simp
  have hleft : (r.source.process cfg b).left.output.Holds .empty cfg.partitions
      (filterSettings cfg 0 (b :: past)) := by
    rw [hsettings]
    exact SourceChannel.process_holds h.left hempty (hne 0) _ _ _
  have hright : (r.source.process cfg b).right.output.Holds .empty cfg.partitions
      (filterSettings cfg 1 (b :: past)) := by
    rw [hsettings]
    exact SourceChannel.process_holds h.right
      (fun htrue j hj => (settings_parallel j).1 (hempty htrue j hj)) (hne 1) _ _ _
  exact ⟨SourceChannel.combine_holds hleft b.input, SourceChannel.combine_holds hright b.input, rfl⟩

theorem Run.recorded_run (hbrtfs : ∀ index, cfg.brtfSet index ≠ []) {bs : List (Block σ α)}
    (hr : run (Run.step cfg) (Run.start cfg) bs = some r) : r.Recorded cfg bs.reverse := by
  induction bs using List.reverseRecOn generalizing r with
  | nil =>
    cases hr
    exact recorded_start
  | append_singleton bs b ih =>
    rw [run_snoc, Option.bind_eq_some_iff] at hr
    obtain ⟨r', hr', hs⟩ := hr
    rw [List.reverse_append, List.reverse_singleton, List.singleton_append]
    exact (ih hr').step hbrtfs hs

end Brs

/-- **One filter for each block.** In the BRS renderer, after any blocks, the pointers of both
channels lead to the partitions of the filters of the right blocks. In the binaural renderer this is
so if and only if the partitions of interpolated filters that are still to be used are the same in
the last interpolated filter. -/
theorem oneFilter_iff [Field α] [DecidableEq α] :
    (∀ (cfg : Brs.Config α) (bs : List (Brs.Block σ α)) (r : Brs.Run σ α),
      0 < cfg.partitions → (∀ index, cfg.brtfSet index ≠ []) →
      (∀ b ∈ bs, b.brtfIndex < 2 ^ 64 - 1) →
      run (Brs.Run.step cfg) (Brs.Run.start cfg) bs = some r → r.OneFilter cfg bs.reverse) ∧
    ∀ (cfg : Binaural.Config α) (bs : List (Binaural.Block σ α)) (r : Binaural.Run σ α),
      0 < cfg.partitions → (∀ index, cfg.hrtfs index ≠ []) →
      (∀ b ∈ bs, b.hrtfIndex < 2 ^ 64 - 1) →
      run (Binaural.Run.step cfg) (Binaural.Run.start cfg) bs = some r →
      (r.OneFilter cfg bs.reverse ↔ cfg.Kept bs.reverse) := by
  constructor
  · intro cfg bs r _ hbrtfs hvalid hr
    obtain ⟨hleft, hright, -⟩ := Brs.Run.recorded_run hbrtfs hr
    have hpast : ∀ b ∈ bs.reverse, b.brtfIndex < 2 ^ 64 - 1 := by simpa using hvalid
    exact ⟨Brs.oneFilter_of_holds hleft hpast, Brs.oneFilter_of_holds hright hpast⟩
  · intro cfg bs r hpartitions hhrtfs hvalid hr
    have hpast : ∀ b ∈ bs.reverse, b.hrtfIndex < 2 ^ 64 - 1 := by simpa using hvalid
    exact (Binaural.Run.recorded_run hhrtfs hpartitions hvalid hr).iff_kept hpast

/-- Two partitions; the interpolated filter of the first block is used in both blocks. -/
theorem oneFilter_iff_two :
    (let cfg : Brs.Config ℚ := ⟨fun _ => [.new, .new], 2⟩
     let bs : List (Brs.Block Unit ℚ) := [⟨(), 3, 1⟩, ⟨(), 4, 1⟩]
     ∃ r, run (Brs.Run.step cfg) (Brs.Run.start cfg) bs = some r ∧ r.OneFilter cfg bs.reverse) ∧
    let cfg : Binaural.Config ℚ := ⟨fun _ => [.new, .new], [.new], 2⟩
    let bs : List (Binaural.Block Unit ℚ) := [⟨(), 3, 1 / 2, 1⟩, ⟨(), 4, 0, 1⟩]
    ∃ r, run (Binaural.Run.step cfg) (Binaural.Run.start cfg) bs = some r ∧
      (r.OneFilter cfg bs.reverse ↔ cfg.Kept bs.reverse) := by
  constructor
  · intro cfg bs
    obtain ⟨r, hr⟩ : ∃ r, run (Brs.Run.step cfg) (Brs.Run.start cfg) bs = some r := ⟨_, rfl⟩
    exact ⟨r, hr, oneFilter_iff.1 cfg bs r (by decide) (fun _ => List.cons_ne_nil _ _)
      (by simp [bs]) hr⟩
  · intro cfg bs
    obtain ⟨r, hr⟩ : ∃ r, run (Binaural.Run.step cfg) (Binaural.Run.start cfg) bs = some r :=
      ⟨_, rfl⟩
    exact ⟨r, hr, oneFilter_iff.2 cfg bs r (by decide) (fun _ => List.cons_ne_nil _ _)
      (by simp [bs]) hr⟩

/-- If two blocks follow each other with different interpolation factors then, for the first block's
input, the second partition is that of the second block's filter. -/
theorem interpolated_overwritten :
    let node : FftNode ℚ := ⟨fun _ => 1, false⟩
    let cfg : Binaural.Config ℚ := ⟨fun _ => [node, node], [node], 2⟩
    let bs : List (Binaural.Block Unit ℚ) := [⟨(), 0, 1 / 2, 1⟩, ⟨(), 0, 1 / 4, 1⟩]
    ∃ r, run (Binaural.Run.step cfg) (Binaural.Run.start cfg) bs = some r ∧
      ¬ r.OneFilter cfg bs.reverse := by
  intro node cfg bs
  obtain ⟨r, hr⟩ : ∃ r, run (Binaural.Run.step cfg) (Binaural.Run.start cfg) bs = some r :=
    ⟨_, rfl⟩
  refine ⟨r, hr, fun hone => ?_⟩
  have hvalid : ∀ b ∈ bs, b.hrtfIndex < 2 ^ 64 - 1 := by simp [bs]
  have hrecorded := Binaural.Run.recorded_run (fun _ => List.cons_ne_nil _ _) (by decide) hvalid hr
  have hkept := (hrecorded.iff_kept (by simpa using hvalid)).1 hone
  have hcontents : ∀ factor : ℚ, factor ≠ 0 → contents (cfg.selected 0
      (⟨(), 0, factor, 1⟩ : Binaural.Block Unit ℚ)) 1 =
        some fun _ => (1 - factor) * 1 + factor * 0 := by
    intro factor hne
    rw [Binaural.Config.selected, if_neg hne]
    rfl
  have hsame := hkept 1 (by decide) (by decide) ⟨(), 0, 1 / 2, 1⟩ rfl (by norm_num)
    ⟨(), 0, 1 / 4, 1⟩ (Binaural.newestInterpolated_of_ne (by norm_num)) 0 (by decide)
  rw [hcontents (1 / 4) (by norm_num), hcontents (1 / 2) (by norm_num)] at hsame
  have hdata := congrFun (Option.some.inj hsame) 0
  norm_num at hdata

end Ssr
