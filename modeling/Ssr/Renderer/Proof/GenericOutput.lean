import Ssr.Apf.Proof.CombineChannels
import Ssr.Apf.Proof.Fade
import Ssr.Renderer.GenericRenderer
import Ssr.Renderer.Proof.Crossfade
import Ssr.Renderer.Proof.MixedFilter

/-!
# The output of the generic renderer

The filters do not change, so a crossfade between the old and the new weight is the same as a gain
that goes from one to the other (`contribution_value`).
-/

set_option autoImplicit false

namespace Ssr.Generic

open Apf Conv CombineChannels Lib

variable {n k L : ℕ}

/-! ## One channel -/

section
variable {α : Type} [Field α] [DecidableEq α] (fftw : Fftw α)

/-- A channel after its block. -/
def SourceChannel.next (s : Source α n L) (c : SourceChannel α n) : SourceChannel α n :=
  let (c, mode) := c.select fftw s
  if mode = .change ∨ mode = .fadeIn then c.update fftw s else c

/-- What a channel contributes to the mix. -/
def SourceChannel.contribution (s : Source α n L) (c : SourceChannel α n) : Contribution n α :=
  let (c, mode) := c.select fftw s
  match mode with
  | .nothing => ⟨none, none, none⟩
  | .constant => ⟨some c.samples, none, none⟩
  | .change => ⟨none, some c.samples, some (c.update fftw s).samples⟩
  | .fadeIn => ⟨none, none, some (c.update fftw s).samples⟩
  | .fadeOut => ⟨none, some c.samples, none⟩

/-- The channels of an output are independent. -/
theorem independent (sources : Fin k → Source α n L) :
    Independent (renderFunction fftw sources)
      { samples := fun c i => (c i).samples, fadeOutSamples := fun c i => (c i).samples } id
      (fun i c => c.contribution fftw (sources i)) fun i c => c.next fftw (sources i) := by
  refine ⟨fun c i => ?_, fun c i j => ?_⟩
  · unfold CombineChannels.contribution SourceChannel.contribution renderFunction
    dsimp only [id]
    generalize (c i).select fftw (sources i) = p
    obtain ⟨channel, mode⟩ := p
    cases mode with
    | nothing => rfl
    | constant => simp
    | change => simp
    | fadeIn => simp
    | fadeOut => simp
  · unfold CombineChannels.contribution SourceChannel.next renderFunction
    dsimp only [id]
    generalize (c i).select fftw (sources i) = p
    obtain ⟨channel, mode⟩ := p
    cases mode with
    | nothing => simp [Function.update_apply]
    | constant => simp [Function.update_apply]
    | change => simp +contextual [Function.update_apply]
    | fadeIn => simp +contextual [Function.update_apply]
    | fadeOut => simp [Function.update_apply]

/-- The mode fits, and a channel with an old signal has convolved it. -/
theorem select_eq (s : Source α n L) (c : SourceChannel α n) :
    let mode := (c.select fftw s).2
    mode.Fits s.weightingFactor true false ∧ (c.select fftw s).1 =
      if mode = .nothing ∨ mode = .fadeIn then c
      else c.convolve fftw s.convolver s.weightingFactor.old := by
  rw [SourceChannel.select]
  dsimp only
  by_cases hboth : s.weightingFactor.bothEq 0 = true
  · rw [if_pos hboth]
    obtain ⟨hcurrent, hold⟩ := BlockParameter.bothEq_iff.1 hboth
    exact ⟨⟨hold, hcurrent⟩, by simp⟩
  rw [if_neg hboth]
  rw [BlockParameter.bothEq_iff] at hboth
  by_cases hold : s.weightingFactor.old = 0
  · rw [if_pos hold]
    exact ⟨⟨hold, fun hcurrent => hboth ⟨hcurrent, hold⟩⟩, by simp⟩
  rw [if_neg hold]
  by_cases hcurrent : s.weightingFactor.current = 0
  · rw [if_pos hcurrent]
    exact ⟨⟨hold, hcurrent⟩, by simp⟩
  rw [if_neg hcurrent]
  cases hchanged : s.weightingFactor.changed with
  | false =>
    have hsame := BlockParameter.changed_eq_false_iff.1 hchanged
    exact ⟨⟨rfl, rfl, hsame, hold⟩, by simp⟩
  | true => exact ⟨⟨hold, hcurrent⟩, by simp⟩

theorem next_convolver (s : Source α n L) (c : SourceChannel α n) :
    (c.next fftw s).convolver = c.convolver := by
  have hselect := (select_eq fftw s c).2
  rw [SourceChannel.next]
  dsimp only
  generalize c.select fftw s = p at hselect
  obtain ⟨c', mode⟩ := p
  dsimp only at hselect ⊢
  rw [hselect]
  split <;> split <;> rfl

/-- **One channel in one block**: a gain for the convolved signal. -/
theorem contribution_value {fade : Fade n α} {j : Fin n}
    (hfade : fade.fadeOut j + fade.fadeIn j = 1) (s : Source α n L) (c : SourceChannel α n)
    {y : α} (hy : ∀ weight, Conv.convolve fftw s.convolver c.convolver weight j = weight * y) :
    (c.contribution fftw s).value fade j = (s.weightingFactor.old * fade.fadeOut j +
      s.weightingFactor.current * fade.fadeIn j) * y := by
  obtain ⟨hfits, hselect⟩ := select_eq fftw s c
  have hconvolver : (c.select fftw s).1.convolver = c.convolver := by
    rw [hselect]
    split <;> rfl
  have hmode : c.contribution fftw s = .ofMode (c.select fftw s).2 (c.select fftw s).1.samples
      ((c.select fftw s).1.update fftw s).samples := rfl
  have hvalue : (c.contribution fftw s).value fade j = s.weightingFactor.old * y * fade.fadeOut j +
      s.weightingFactor.current * y * fade.fadeIn j := by
    rw [hmode]
    refine Contribution.ofMode_value hfade hfits (fun h => ?_) ?_ (fun hold => ?_)
      (fun hnew => ?_) fun hconstant => ?_
    · rw [hselect, if_neg h]
      exact hy _
    · show Conv.convolve fftw s.convolver (c.select fftw s).1.convolver _ j = _
      rw [hconvolver]
      exact hy _
    · rw [hold, zero_mul]
    · rw [hnew, zero_mul]
    · rw [hconstant] at hfits
      obtain ⟨-, -, hsame, -⟩ := hfits
      rw [hsame]
  rw [hvalue]
  ring

end

/-! ## Runs -/

section
variable {fftw : Fftw ℝ} {correction : ℝ}

/-- The weight of a source after the blocks of `fs`. -/
def weightAfter (correction : ℝ) (fs : List (Frame ℝ k)) (i : Fin k) : ℝ :=
  fs.getLast?.elim 0 fun f => f.weightingFactor correction i

/-- A source with the given impulse responses, after the blocks of `fs`; its input was `empty`. -/
structure Source.Holds (fftw : Fftw ℝ) (correction : ℝ) (size : ℕ) (slices : Fin L → List ℝ)
    (empty : Conv.Input ℝ) (i : Fin k) (fs : List (Frame ℝ k)) (s : Source ℝ n L) : Prop where
  weight : s.weightingFactor.current = weightAfter correction fs i
  input : s.convolver = (fs.map fun f => f.samples i).foldl (Conv.Input.addBlock fftw) empty
  filter : ∀ l, (s.sourcechannels l).convolver =
    prepareFilter fftw n (slices l) (List.replicate (minPartitions n size) .new)

theorem Source.new_cases (hn : 0 < n) {size : ℕ} {slices : Fin L → List ℝ}
    (hlength : ∀ l, (slices l).length = size) {s : Source ℝ n L}
    (h : Source.new fftw n size slices = some s) (correction : ℝ) (i : Fin k) :
    ∃ empty, Conv.Input.new n (minPartitions n size) = some empty ∧
      s.Holds fftw correction size slices empty i [] := by
  rw [Source.new, Option.map_eq_some_iff] at h
  obtain ⟨empty, hempty, rfl⟩ := h
  obtain ⟨hblockSize, -, hpartitions, -⟩ := Conv.Input.new_cases hempty
  have hcount : empty.partitions = minPartitions n size := by
    rw [← hpartitions]
    simp [Conv.Input.partitions, Conv.Input.spectra]
  refine ⟨empty, hempty, rfl, rfl, fun l => ?_⟩
  have hfits : empty.partitions = 0 ∨ (slices l).length ≤ empty.partitions * n := by
    rw [hcount, hlength]
    exact .inr (minPartitions_mul hn size)
  show staticOutput fftw empty (slices l) = _
  rw [staticOutput, hblockSize, setFilter_filter hn hfits, hcount]

/-- **One block**: the sources go on as if they were alone, and an output is the sum of what they
contribute. -/
theorem Renderer.process_eq (fade : Fade n ℝ) (r : Renderer ℝ n k L) (f : Frame ℝ k) :
    let r' := r.process fftw correction fade f
    let source := fun i => (r.sources i).process fftw correction f i
    (∀ i, r'.sources i = { source i with
      sourcechannels := fun l => ((r.sources i).sourcechannels l).next fftw (source i) }) ∧
    ∀ l j, (r'.outputs l).out.buffer j = ∑ i,
      (((r.sources i).sourcechannels l).contribution fftw (source i)).value fade j := by
  intro r' source
  have hout := fun l => (independent fftw source).process fade (List.nodup_finRange k)
    (fun i => (source i).sourcechannels l) (r.outputs l)
  refine ⟨fun i => ?_, fun l j => ?_⟩
  · have hchannels : (fun l => (processOutput fftw source fade
        (fun i => (source i).sourcechannels l) (r.outputs l)).1 i) =
          fun l => ((r.sources i).sourcechannels l).next fftw (source i) := by
      funext l
      have hi := (hout l).2 i
      rw [if_pos (List.mem_finRange i)] at hi
      exact hi
    rw [← hchannels]
    rfl
  · rw [Fin.sum_univ_def]
    exact (hout l).1 j

theorem Source.Holds.process {size : ℕ} {slices : Fin L → List ℝ} {empty : Conv.Input ℝ}
    {r : Renderer ℝ n k L} {fs : List (Frame ℝ k)} {i : Fin k}
    (h : (r.sources i).Holds fftw correction size slices empty i fs) (fade : Fade n ℝ)
    (f : Frame ℝ k) :
    ((r.process fftw correction fade f).sources i).Holds fftw correction size slices empty i
      (fs ++ [f]) := by
  rw [(r.process_eq fade f).1]
  refine ⟨?_, ?_, fun l => ?_⟩
  · rw [weightAfter, List.getLast?_concat]
    rfl
  · rw [List.map_append, List.foldl_append, ← h.input]
    rfl
  · rw [← h.filter l]
    exact next_convolver fftw _ _

theorem Source.Holds.run {size : ℕ} {slices : Fin L → List ℝ} {empty : Conv.Input ℝ}
    {r : Renderer ℝ n k L} {i : Fin k}
    (h : (r.sources i).Holds fftw correction size slices empty i []) (fade : Fade n ℝ)
    (fs : List (Frame ℝ k)) :
    ((fs.foldl (Renderer.process fftw correction fade) r).sources i).Holds fftw correction size
      slices empty i fs := by
  induction fs using List.reverseRecOn with
  | nil => exact h
  | append_singleton fs f ih =>
    rw [List.foldl_concat]
    exact ih.process fade f

/-- What an output gets from a source, without its weight: the convolution of everything that the
source has played, up to the newest silence. -/
noncomputable def convolved (n : ℕ) (h : List ℝ) (i : Fin k) (fs : List (Frame ℝ k)) (j : ℕ) : ℝ :=
  let xs := fs.map fun f => f.samples i
  lastBlock n (h.take (sounding n xs.reverse * n)) xs j

/-- **The output of the generic renderer.** -/
theorem output_convolution (hexact : fftw.IsExact) (hn : 0 < n) {size : Fin k → ℕ}
    {slices : Fin k → Fin L → List ℝ} (hlength : ∀ i l, (slices i l).length = size i)
    {sources : Fin k → Source ℝ n L}
    (hnew : ∀ i, Source.new fftw n (size i) (slices i) = some (sources i))
    (outputs : Fin L → Buffers n ℝ) (fs : List (Frame ℝ k)) (f : Frame ℝ k) (l : Fin L)
    (j : Fin n) :
    let r := (fs ++ [f]).foldl (Renderer.process fftw correction (raisedCosineFade n))
      ⟨sources, outputs⟩
    (r.outputs l).out.buffer j = ∑ i,
      (weightAfter correction fs i * (raisedCosineFade n).fadeOut j +
          weightAfter correction (fs ++ [f]) i * (raisedCosineFade n).fadeIn j) *
        convolved n (slices i l) i (fs ++ [f]) j := by
  intro r
  let r₀ := fs.foldl (Renderer.process fftw correction (raisedCosineFade n)) ⟨sources, outputs⟩
  have hr : r = r₀.process fftw correction (raisedCosineFade n) f := List.foldl_concat ..
  rw [hr, (r₀.process_eq _ f).2]
  refine Finset.sum_congr rfl fun i _ => ?_
  obtain ⟨empty, hempty, hstart⟩ := Source.new_cases hn (hlength i) (hnew i) correction i
  have hbefore : (r₀.sources i).Holds fftw correction (size i) (slices i) empty i fs :=
    hstart.run (r := ⟨sources, outputs⟩) (raisedCosineFade n) fs
  let source := (r₀.sources i).process fftw correction f i
  have hinput : source.convolver =
      ((fs ++ [f]).map fun f => f.samples i).foldl (Conv.Input.addBlock fftw) empty := by
    rw [List.map_append, List.foldl_append, ← hbefore.input]
    rfl
  obtain ⟨hspectra, h8, hpartitions⟩ := Conv.Input.addBlocks_hold hexact hn hempty
    ((fs ++ [f]).map fun f => f.samples i)
  rw [← hinput] at hspectra hpartitions
  have hconvolve : ∀ weight, Conv.convolve fftw source.convolver
      ((r₀.sources i).sourcechannels l).convolver weight j =
        weight * convolved n (slices i l) i (fs ++ [f]) j := by
    intro weight
    have hfits : (slices i l).length ≤ source.convolver.partitions * n := by
      rw [hpartitions, hlength]
      exact minPartitions_mul hn (size i)
    rw [hbefore.filter l, ← hpartitions, convolve_eq hexact hn h8 hspectra _ _ j.isLt,
      heard_eq_lastBlock j.isLt hfits, List.reverse_reverse]
    rfl
  rw [contribution_value fftw (raisedCosineFade_add j) source _ hconvolve]
  have hold : source.weightingFactor.old = weightAfter correction fs i := hbefore.weight
  have hcurrent : source.weightingFactor.current = weightAfter correction (fs ++ [f]) i := by
    rw [weightAfter, List.getLast?_concat]
    rfl
  rw [hold, hcurrent]

end

/-- Two outputs, which get the signal of a source and twice that. -/
theorem output_convolution_two : ∃ source : Source ℝ 8 2,
    Source.new Fftw.exact 8 1 (fun l => [l.val + 1]) = some source ∧
    ∀ (outputs : Fin 2 → Buffers 8 ℝ) (fs : List (Frame ℝ 1)) (f : Frame ℝ 1) (l : Fin 2) (j : Fin 8),
      let r := (fs ++ [f]).foldl (Renderer.process Fftw.exact 1 (raisedCosineFade 8))
        ⟨fun _ => source, outputs⟩
      (r.outputs l).out.buffer j = ∑ i : Fin 1,
        (weightAfter 1 fs i * (raisedCosineFade 8).fadeOut j +
            weightAfter 1 (fs ++ [f]) i * (raisedCosineFade 8).fadeIn j) *
          convolved 8 [l.val + 1] i (fs ++ [f]) j := by
  refine ⟨_, rfl, fun outputs fs f l j => ?_⟩
  exact @output_convolution 8 1 2 Fftw.exact 1 Fftw.exact_isExact (by decide) (fun _ => 1)
    (fun _ l => [l.val + 1]) (fun _ _ => rfl) (fun _ => _) (fun _ => rfl) outputs fs f l j

end Ssr.Generic
