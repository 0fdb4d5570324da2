import Ssr.Renderer.SourceToOutput
import Mathlib.Data.List.Basic

/-!
# The sublists of the outputs

`channels n l` are the sublists that belong to the connected sources `l`. A command that is valid
for `l` turns them into the sublists for the sources that are connected after it (`Fits.execute`).
So the sublists are right for the sources that are connected after the executed commands, and the
pending ones lead from these to the sources that are connected now (`Sound`).
-/

set_option autoImplicit false

namespace Ssr

open Lib Apf.Container

variable {α : Type} [DecidableEq α]

/-! ## The lists of the renderer model -/

omit [DecidableEq α] in
/-- `distribute_list` of the renderer model leaves out the list that is emptied. -/
theorem distributeList_renderer (source : List α) (target : List (List α)) :
    distributeList source target =
      match (Apf.Container.distributeList source target).error with
      | none => .ok (Apf.Container.distributeList source target).target
      | some e => .error e := by
  by_cases h : source.length = target.length
  · rw [distributeList_eq h, distributeList, if_neg (not_not.2 h)]
  · rw [distributeList_of_length_ne h, distributeList, if_pos h]

theorem undistributeLoop_renderer (source : List α) (target : List (List α)) (garbage : List α) :
    undistributeLoop source target =
      match (Apf.Container.undistributeLoop source target garbage).error with
      | none => .ok (Apf.Container.undistributeLoop source target garbage).target
      | some e => .error e := by
  induction source generalizing target garbage with
  | nil => cases target <;> rfl
  | cons x source ih =>
    cases target with
    | nil => rfl
    | cons out target =>
      rw [undistributeLoop, Apf.Container.undistributeLoop]
      split
      · rw [ih target (garbage ++ [x])]
        dsimp only
        cases (Apf.Container.undistributeLoop source target (garbage ++ [x])).error <;> rfl
      · rfl

/-- The same for `undistribute_list` and the garbage. -/
theorem undistributeList_renderer (source : List α) (target : List (List α)) (garbage : List α) :
    undistributeList source target =
      match (Apf.Container.undistributeList source target garbage).error with
      | none => .ok (Apf.Container.undistributeList source target garbage).target
      | some e => .error e := by
  rw [undistributeList, Apf.Container.undistributeList]
  split
  · rfl
  · exact undistributeLoop_renderer source target garbage

namespace SourceToOutput

/-! ## The sublists of some sources -/

omit [DecidableEq α] in
/-- Channel `i` of all sources, for each of `n` outputs. -/
def channels (n : ℕ) (l : List (List α)) : List (List α) :=
  (List.range n).map fun i => l.filterMap fun ch => ch[i]?

omit [DecidableEq α] in
theorem length_channels (n : ℕ) (l : List (List α)) : (channels n l).length = n := by
  simp [channels]

omit [DecidableEq α] in
theorem getElem_channels {n i : ℕ} (l : List (List α)) (hi : i < (channels n l).length) :
    (channels n l)[i] = l.filterMap fun ch => ch[i]? := by
  simp [channels]

omit [DecidableEq α] in
theorem channels_append {n : ℕ} {ch : List α} (l : List (List α)) (h : ch.length = n) :
    List.zipWith (fun x out => out ++ [x]) ch (channels n l) = channels n (l ++ [ch]) := by
  refine List.ext_getElem (by simp [length_channels, h]) fun i hi hi' => ?_
  rw [List.getElem_zipWith, getElem_channels, getElem_channels, List.filterMap_append]
  have hlt : i < ch.length := by
    rw [length_channels] at hi'
    omega
  simp [hlt]

omit [DecidableEq α] in
theorem map_some_filterMap {β γ : Type} {f : β → Option γ} {l : List β}
    (h : ∀ b ∈ l, (f b).isSome) : (l.filterMap f).map some = l.map f := by
  induction l with
  | nil => rfl
  | cons b l ih =>
    obtain ⟨c, hc⟩ := Option.isSome_iff_exists.1 (h b List.mem_cons_self)
    simp [hc, ih fun b hb => h b (List.mem_cons_of_mem _ hb)]

/-- The sources have `n` channels each, and none in common. -/
structure Fits (n : ℕ) (l : List (List α)) : Prop where
  length : ∀ ch ∈ l, ch.length = n
  disjoint : l.Pairwise fun c d => ∀ x ∈ d, x ∉ c

variable {n : ℕ} {l : List (List α)} {ch : List α}

omit [DecidableEq α] in
theorem Fits.found (h : Fits n l) (hch : ch ∈ l) : List.Forall₂ (· ∈ ·) ch (channels n l) := by
  refine List.forall₂_iff_get.2 ⟨by rw [length_channels, h.length ch hch], fun i hi hi' => ?_⟩
  rw [List.get_eq_getElem, List.get_eq_getElem, getElem_channels]
  exact List.mem_filterMap.2 ⟨ch, hch, List.getElem?_eq_getElem hi⟩

/-- Channel `i` of a source is removed from the channels `i` of all. -/
theorem filterMap_erase {i : ℕ} {x : α} (hl : l.Pairwise fun c d => ∀ x ∈ d, x ∉ c)
    (hx : ch[i]? = some x) (hch : ch ∈ l) :
    (l.filterMap fun ch => ch[i]?).erase x = (l.erase ch).filterMap fun ch => ch[i]? := by
  induction l with
  | nil => cases hch
  | cons d l ih =>
    obtain ⟨hd, hl⟩ := List.pairwise_cons.1 hl
    by_cases he : d = ch
    · subst he
      simp [hx]
    · have hmem := (List.mem_cons.1 hch).resolve_left fun h => he h.symm
      rw [List.erase_cons_tail (by simpa using he)]
      cases hdi : d[i]? with
      | none => simp [hdi, ih hl hmem]
      | some y =>
        have hne : y ≠ x := by
          rintro rfl
          exact hd ch hmem y (List.mem_of_getElem? hx) (List.mem_of_getElem? hdi)
        simp [hdi, hne, ih hl hmem]

theorem Fits.channels_erase (h : Fits n l) (hch : ch ∈ l) :
    List.zipWith (fun x out => out.erase x) ch (channels n l) = channels n (l.erase ch) := by
  have hlen := h.length ch hch
  refine List.ext_getElem (by simp [length_channels, hlen]) fun i hi hi' => ?_
  have hlt : i < ch.length := by
    rw [length_channels] at hi'
    omega
  rw [List.getElem_zipWith, getElem_channels, getElem_channels]
  exact filterMap_erase h.disjoint (List.getElem?_eq_getElem hlt) hch

/-! ## One command -/

/-- The sources that are connected after the command. -/
def after (l : List (List α)) : SublistCommand α → List (List α)
  | .add input => l ++ [input]
  | .rem input _ => l.erase input

/-- The command can be executed when the sources `l` are connected. -/
def Valid (n : ℕ) (l : List (List α)) : SublistCommand α → Prop
  | .add input => input.length = n ∧ ∀ d ∈ l, ∀ x ∈ input, x ∉ d
  | .rem input garbage => input ∈ l ∧ garbage = []

/-- The same for a sequence of commands. -/
def ValidAll (n : ℕ) : List (List α) → List (SublistCommand α) → Prop
  | _, [] => True
  | l, c :: cs => Valid n l c ∧ ValidAll n (after l c) cs

theorem ValidAll.snoc {cs : List (SublistCommand α)} {c : SublistCommand α} (h : ValidAll n l cs)
    (hc : Valid n (cs.foldl after l) c) : ValidAll n l (cs ++ [c]) := by
  induction cs generalizing l with
  | nil => exact ⟨hc, trivial⟩
  | cons d cs ih => exact ⟨h.1, ih h.2 hc⟩

theorem Fits.after (h : Fits n l) {c : SublistCommand α} (hc : Valid n l c) :
    Fits n (after l c) := by
  cases c with
  | add input =>
    refine ⟨fun ch hch => ?_, ?_⟩
    · rcases List.mem_append.1 hch with hch | hch
      · exact h.length ch hch
      · rw [List.mem_singleton.1 hch]
        exact hc.1
    · refine List.pairwise_append.2 ⟨h.disjoint, List.pairwise_singleton _ _, fun c hc' d hd => ?_⟩
      rw [List.mem_singleton.1 hd]
      exact hc.2 c hc'
  | rem input =>
    exact ⟨fun ch hch => h.length ch (List.mem_of_mem_erase hch),
      h.disjoint.sublist List.erase_sublist⟩

/-- What has become of the lists of a command when it has been executed. -/
def Through : SublistCommand α → Prop
  | .add input => input = []
  | .rem input garbage => garbage = input

theorem Fits.execute (h : Fits n l) {s : SourceToOutput α} (hs : s.sublists = channels n l)
    {c : SublistCommand α} (hc : Valid n l c) :
    ∃ d, s.execute c = { s with
      sublists := channels n (SourceToOutput.after l c)
      executed := s.executed ++ [d] } ∧ Through d := by
  cases c with
  | add input =>
    have he := distributeList_eq (show input.length = (channels n l).length by
      rw [length_channels, hc.1])
    rw [channels_append l hc.1] at he
    refine ⟨.add [], ?_, rfl⟩
    simp only [SourceToOutput.execute, hs, he, Option.or_none]
    rfl
  | rem input garbage =>
    obtain ⟨hmem, rfl⟩ := hc
    have he := @undistributeList_eq _ _ _ _ [] (h.found hmem)
    rw [h.channels_erase hmem] at he
    refine ⟨.rem input input, ?_, rfl⟩
    simp only [SourceToOutput.execute, hs, he, Option.or_none, List.nil_append]
    rfl

/-! ## Runs -/

/-- `l` are the sources that are connected after the executed commands. -/
structure Sound (n : ℕ) (s : SourceToOutput α) (l : List (List α)) : Prop where
  fits : Fits n l
  sublists : s.sublists = channels n l
  valid : ValidAll n l s.pending
  connected : s.pending.foldl after l = s.connected
  executed : ∀ c ∈ s.executed, Through c
  threw : s.threw = none

theorem Sound.step {s t : SourceToOutput α} (h : Sound n s l) {op : Op α} (hop : s.Allowed op)
    (hs : s.step op = some t) : ∃ l', Sound n t l' := by
  have hlen : s.sublists.length = n := by rw [h.sublists, length_channels]
  cases op with
  | connect ch =>
    cases hs
    refine ⟨l, { h with valid := h.valid.snoc ?_, connected := ?_ }⟩
    · rw [h.connected]
      exact ⟨hop.1.trans hlen, hop.2⟩
    · rw [List.foldl_append, h.connected]
      rfl
  | disconnect ch =>
    cases hs
    refine ⟨l, { h with valid := h.valid.snoc ?_, connected := ?_ }⟩
    · rw [h.connected]
      exact ⟨hop, rfl⟩
    · rw [List.foldl_append, h.connected]
      rfl
  | execute =>
    simp only [SourceToOutput.step] at hs
    split at hs
    · cases hs
    · rename_i c pending hp
      have hvalid := h.valid
      have hconnected := h.connected
      rw [hp] at hvalid hconnected
      obtain ⟨d, he, hd⟩ := h.fits.execute (s := { s with pending }) h.sublists hvalid.1
      rw [he] at hs
      cases hs
      refine ⟨after l c, h.fits.after hvalid.1, rfl, hvalid.2, hconnected, fun c hc => ?_,
        h.threw⟩
      rcases List.mem_append.1 hc with hc | hc
      · exact h.executed c hc
      · rw [List.mem_singleton.1 hc]
        exact hd

theorem sound_start (n : ℕ) : Sound n (start n : SourceToOutput α) [] := by
  refine ⟨⟨fun _ h => (by cases h), .nil⟩, ?_, trivial, rfl, fun _ h => (by cases h), rfl⟩
  refine List.ext_getElem (by simp [start, length_channels]) fun i hi hi' => ?_
  simp [start, channels]

/-- **The sublists of the outputs.** Whatever is connected and disconnected in whatever order: when
all commands are executed, the sublist of output `i` is channel `i` of every connected source, in
the order of their connection; every `distribute_list` has left its list empty, and every
`undistribute_list` has put the elements into its garbage in the order of the outputs. The rest is
about single calls: a wrong size changes nothing, and what is removed goes into the garbage. -/
theorem sublists_right {s : SourceToOutput α} (hs : Reach step Allowed (start n) s) :
    (s.threw = none ∧ (∀ c ∈ s.executed, Through c) ∧ s.sublists.length = n ∧
      (s.pending = [] → ∀ i (hi : i < s.sublists.length),
        s.sublists[i].map some = s.connected.map fun ch => ch[i]?)) ∧
    (∀ (source : List α) (target : List (List α)),
      if source.length = target.length then
        Apf.Container.distributeList source target =
          ⟨[], List.zipWith (fun x out => out ++ [x]) source target, none⟩
      else Apf.Container.distributeList source target =
        ⟨source, target, some "distribute_list: Different sizes!"⟩) ∧
    ∀ (source : List α) (target : List (List α)) (garbage : List α),
      if source.length = target.length then
        ∃ k, Moved source target garbage
          (Apf.Container.undistributeList source target garbage) k
      else Apf.Container.undistributeList source target garbage =
        ⟨target, garbage, some "undistribute_list(): Different sizes!"⟩ := by
  obtain ⟨l, h⟩ : ∃ l, Sound n s l := hs.inv (fun s => ∃ l, Sound n s l) ⟨[], sound_start n⟩
    fun _ _ _ ⟨_, h⟩ hop hstep => h.step hop hstep
  refine ⟨⟨h.threw, h.executed, by rw [h.sublists, length_channels], fun hp i hi => ?_⟩,
    fun source target => ?_, fun source target garbage => ?_⟩
  · have hconnected : l = s.connected := by
      have := h.connected
      rwa [hp] at this
    have hlt : ∀ ch ∈ s.connected, (ch[i]?).isSome := by
      intro ch hch
      rw [h.sublists, length_channels] at hi
      rw [List.getElem?_eq_getElem (by rw [h.fits.length ch (hconnected ▸ hch)]; exact hi)]
      rfl
    simp only [h.sublists, getElem_channels, hconnected]
    exact map_some_filterMap hlt
  · split
    · exact distributeList_eq ‹_›
    · exact distributeList_of_length_ne ‹_›
  · split
    · exact undistributeList_moved ‹_›
    · exact undistributeList_of_length_ne ‹_›

/-- Two sources are connected, and the first one is disconnected. -/
theorem sublists_right_two : ∃ s : SourceToOutput ℕ,
    run step (start 2) [.connect [1, 2], .connect [3, 4], .execute, .disconnect [1, 2], .execute,
      .execute] = some s ∧ s.sublists = [[3], [4]] ∧ s.threw = none ∧
    ∀ i (hi : i < s.sublists.length), s.sublists[i].map some = s.connected.map fun ch => ch[i]? := by
  obtain ⟨s, hs⟩ : ∃ s : SourceToOutput ℕ, run step (start 2) [.connect [1, 2], .connect [3, 4],
      .execute, .disconnect [1, 2], .execute, .execute] = some s := ⟨_, rfl⟩
  have hallowed : AllSteps step Allowed (start 2 : SourceToOutput ℕ) [.connect [1, 2],
      .connect [3, 4], .execute, .disconnect [1, 2], .execute, .execute] := by
    refine (allSteps_cons rfl).2 ⟨⟨rfl, by decide⟩, (allSteps_cons rfl).2 ⟨⟨rfl, by decide⟩,
      (allSteps_cons rfl).2 ⟨trivial, (allSteps_cons rfl).2 ⟨List.mem_cons_self,
        (allSteps_cons rfl).2 ⟨trivial, (allSteps_cons rfl).2 ⟨trivial, allSteps_nil⟩⟩⟩⟩⟩⟩
  have h := (sublists_right (.of_allSteps hs hallowed)).1
  cases hs
  exact ⟨_, rfl, rfl, rfl, h.2.2.2 rfl⟩

end SourceToOutput

end Ssr
