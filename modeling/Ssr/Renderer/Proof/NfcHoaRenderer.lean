import Ssr.Renderer.NfcHoaRenderer
import Ssr.Renderer.Proof.AddSource
import Ssr.Renderer.Proof.SourceToOutput
import Mathlib.Data.List.Perm.Basic

/-!
# Every mode has its accumulator

The modes of a source are numbered in the order of their pointers (`numbers_modePointers`), so that
the sublist of accumulator `i` holds the modes `i`; and the channels of the accumulators are all
channels of the mode matrix (`channels_modeAccumulators`). A source only connects if `HoaCoefficients`
supports the order.
-/

set_option autoImplicit false

namespace Ssr

open Lib

/-! ## The numbers of the modes -/

/-- The loop builds the list that `connect()` of the renderer adds to the sublists. -/
theorem sourceModes_eq (source : Ptr) (pairs : List ModePair) :
    sourceModes source pairs = modePointers source 0 pairs := by
  have hloop : ∀ n, ((pairs.zipIdx n).foldr (fun (pair : ModePair × ℕ) modes =>
      (if pair.1.first.isSome then .mode source pair.2 false :: modes else modes) ++
        [.mode source pair.2 true]) []) = modePointers source n pairs := by
    induction pairs with
    | nil => exact fun _ => rfl
    | cons pair pairs ih =>
      intro n
      rw [List.zipIdx_cons, List.foldr_cons, ih (n + 1), modePointers]
      split <;> rfl
  rw [sourceModes, List.foldl_reverse]
  exact hloop 0

/-- The number of the first mode of the pair `m`, or of the first one of the next pair. -/
def firstNumber (order m : ℕ) : ℕ := m + order % 2 - 1

theorem sub_orderIsOdd (order m : ℕ) : m - (order % 2 == 0).toNat = firstNumber order m := by
  unfold firstNumber
  rcases Nat.mod_two_eq_zero_or_one order with heven | hodd
  · simp only [heven, BEq.rfl, Bool.toNat_true]
    omega
  · simp only [hodd, show ((1 : ℕ) == 0) = false from rfl, Bool.toNat_false]
    omega

theorem ModePair.new_numbers {m order : ℕ} {pair : ModePair} (h : ModePair.new m order = .ok pair) :
    pair.second.number = order - m ∧
      pair.first.map Mode.number =
        if m = 0 ∧ order % 2 = 0 then none else some (firstNumber order m) := by
  have hmode : ∀ {n : ℕ} {mode : Mode}, Mode.new n = .ok mode → mode.number = n := by
    intro n mode hmode
    rw [Mode.new] at hmode
    split at hmode
    · cases hmode
    · cases hmode
      rfl
  unfold ModePair.new at h
  simp only [bind, Except.bind] at h
  split at h
  · cases h
  · rename_i second hsecond
    split at h
    · rename_i hc
      cases h
      have hc' : m = 0 ∧ order % 2 = 0 := ⟨hc.1, by simpa using hc.2⟩
      exact ⟨hmode hsecond, by rw [if_pos hc']; rfl⟩
    · rename_i hc
      have hc' : ¬ (m = 0 ∧ order % 2 = 0) := fun h' => hc ⟨h'.1, by simpa using h'.2⟩
      split at h
      · cases h
      · rename_i first hfirst
        cases h
        refine ⟨hmode hsecond, ?_⟩
        rw [if_neg hc', Option.map_some, hmode hfirst, sub_orderIsOdd]

/-- **The modes** of the pairs from `m` on are numbered without a gap from the first mode of the pair
`m` to its second one; `all` are the pairs of the source. -/
theorem numbers_modePointers {order : ℕ} (source : Ptr) {all : List ModePair} :
    ∀ {count m : ℕ} {pairs : List ModePair}, m + count = order / 2 + 1 →
      modePairs order m count = .ok pairs → all.drop m = pairs →
      (modePointers source m pairs).map (modeNumber all) =
        (List.range' (firstNumber order m) (order + 1 - m - firstNumber order m)).map some
  | 0, m, _, hm, h, _ => by
    cases h
    have hlen : order + 1 - m - firstNumber order m = 0 := by
      unfold firstNumber
      omega
    rw [hlen]
    rfl
  | count + 1, m, pairs, hm, h, hall => by
    simp only [modePairs, bind, Except.bind] at h
    split at h
    · cases h
    · rename_i pair hpair
      split at h
      · cases h
      · rename_i rest hrest
        cases h
        obtain ⟨hsecond, hfirst⟩ := ModePair.new_numbers hpair
        have hget : all[m]? = some pair := by
          rw [← List.head?_drop, hall]
          rfl
        have hdrop : all.drop (m + 1) = rest := by
          rw [← List.tail_drop, hall]
          rfl
        have ih := numbers_modePointers source (by omega) hrest hdrop
        have hlast : [Element.mode source m true].map (modeNumber all) = [some (order - m)] := by
          simp [modeNumber, hget, hsecond]
        rw [modePointers, List.map_append, List.map_append, ih, hlast]
        by_cases hc : m = 0 ∧ order % 2 = 0
        · -- the pair has one mode only
          rw [if_pos hc, Option.map_eq_none_iff] at hfirst
          have hstart : firstNumber order (m + 1) = firstNumber order m := by
            unfold firstNumber
            omega
          obtain ⟨k, hk⟩ : ∃ k, order + 1 - m - firstNumber order m = k + 1 := by
            unfold firstNumber
            exact ⟨order, by omega⟩
          have hend : firstNumber order m + k = order - m := by omega
          rw [hstart, show order + 1 - (m + 1) - firstNumber order m = k by omega, hk,
            List.range'_1_concat, hend, hfirst]
          simp
        · rw [if_neg hc] at hfirst
          have hstart : firstNumber order (m + 1) = firstNumber order m + 1 := by
            unfold firstNumber
            omega
          obtain ⟨k, hk⟩ : ∃ k, order + 1 - m - firstNumber order m = k + 1 + 1 := by
            unfold firstNumber
            exact ⟨order + 1 - m - (m + order % 2 - 1) - 2, by omega⟩
          have hend : firstNumber order m + 1 + k = order - m := by omega
          obtain ⟨first, hfirst, hnumber⟩ := Option.map_eq_some_iff.1 hfirst
          rw [hstart, show order + 1 - (m + 1) - (firstNumber order m + 1) = k by omega, hk,
            List.range'_succ, List.range'_1_concat, hend, hfirst]
          simp [modeNumber, hget, hfirst, hnumber]

/-- The pointers to the modes of the pairs, in another order than the pairs. -/
theorem modePointers_perm (source : Ptr) {all : List ModePair} :
    ∀ {m : ℕ} {pairs : List ModePair}, all.drop m = pairs →
      ((modePointers source m pairs).map (modeNumber all)).Perm
        ((pairs.flatMap ModePair.numbers).map some)
  | _, [], _ => .nil
  | m, pair :: pairs, hall => by
    have hget : all[m]? = some pair := by
      rw [← List.head?_drop, hall]
      rfl
    have hdrop : all.drop (m + 1) = pairs := by
      rw [← List.tail_drop, hall]
      rfl
    have ih := modePointers_perm source hdrop
    rw [modePointers, List.map_append, List.map_append, List.flatMap_cons, List.map_append,
      ModePair.numbers, List.map_append, List.append_assoc, List.append_assoc]
    have hfirst : (if pair.first.isSome then [Element.mode source m false] else []).map
        (modeNumber all) = (pair.first.toList.map Mode.number).map some := by
      cases hf : pair.first with
      | none => rfl
      | some first => simp [modeNumber, hget, hf]
    have hsecond : [Element.mode source m true].map (modeNumber all) =
        [pair.second.number].map some := by simp [modeNumber, hget]
    rw [hfirst, hsecond]
    exact (List.perm_append_comm.trans (ih.append_left _)).append_left _

/-! ## The channels of the mode matrix -/

/-- The second channel of the accumulator `i` of `n` loudspeakers. -/
def secondChannel (n i : ℕ) : Option ℕ := if 0 < i ∧ i ≠ n - i then some (n - i) else none

theorem modeAccumulators_eq (n : ℕ) :
    modeAccumulators n =
      (List.range (n / 2 + 1)).map fun i => ⟨i, secondChannel n i⟩ := by
  refine List.map_congr_left fun i hi => ?_
  have hi := List.mem_range.1 hi
  unfold secondChannel
  by_cases h : i = 0 ∨ (i = n / 2 ∧ n % 2 = 0)
  · rw [if_pos h, if_neg (by omega)]
  · rw [if_neg h, if_pos (by omega)]

theorem mem_secondChannel {n i c : ℕ} :
    c ∈ (secondChannel n i).toList ↔ (0 < i ∧ i ≠ n - i) ∧ c = n - i := by
  unfold secondChannel
  split
  · rename_i h
    simp [h]
  · rename_i h
    simp [h]

/-- **Every channel** of the mode matrix is written by one accumulator, once. -/
theorem channels_modeAccumulators {n : ℕ} (hn : 0 < n) :
    ((modeAccumulators n).flatMap ModeAccumulator.channels).Perm (List.range n) := by
  have hmem : ∀ {i c}, c ∈ ModeAccumulator.channels ⟨i, secondChannel n i⟩ ↔
      c = i ∨ (0 < i ∧ i ≠ n - i) ∧ c = n - i := by
    intro i c
    rw [ModeAccumulator.channels, List.mem_cons, mem_secondChannel]
  rw [modeAccumulators_eq, List.flatMap_map]
  refine (List.perm_ext_iff_of_nodup ?_ List.nodup_range).2 fun c => ?_
  · rw [List.nodup_flatMap]
    refine ⟨fun i hi => ?_, List.nodup_range.pairwise_of_forall_ne ?_⟩
    · rw [ModeAccumulator.channels, List.nodup_cons]
      refine ⟨fun hc => (mem_secondChannel.1 hc).1.2 (mem_secondChannel.1 hc).2, ?_⟩
      cases secondChannel n i <;> simp
    · intro i hi j hj hij c hci hcj
      have hi := List.mem_range.1 hi
      have hj := List.mem_range.1 hj
      rw [hmem] at hci hcj
      omega
  · rw [List.mem_flatMap, List.mem_range]
    constructor
    · rintro ⟨i, hi, hc⟩
      have hi := List.mem_range.1 hi
      rw [hmem] at hc
      omega
    · intro hc
      by_cases hle : c ≤ n / 2
      · exact ⟨c, List.mem_range.2 (by omega), hmem.2 (.inl rfl)⟩
      · exact ⟨n - c, List.mem_range.2 (by omega), hmem.2 (by omega)⟩

/-! ## The renderer -/

/-- `connect()` builds the modes 0, ..., `order` from the modes of its pairs. -/
def ModesConnected (cfg : RendererConfig) (source input : Ptr) (pairs : List ModePair) : Prop :=
  modePairs cfg.order 0 (cfg.order / 2 + 1) = .ok pairs ∧
  (∃ object, cfg.connect source input = .ok object ∧
    object.elements = some (sourceModes source pairs)) ∧
  (sourceModes source pairs).map (modeNumber pairs) = (List.range (cfg.order + 1)).map some ∧
  (pairs.flatMap ModePair.numbers).Perm (List.range (cfg.order + 1))

/-- The sublist of each accumulator has the mode with its number of every connected source, in the
order of their connection. -/
def ModesRouted (pairs : List ModePair) (s : SourceToOutput Element) : Prop :=
  ∀ i (hi : i < s.sublists.length), List.Forall₂
    (fun element modes => element ∈ modes ∧ modeNumber pairs element = some i)
    s.sublists[i] s.connected

theorem modesConnected {cfg : RendererConfig} (hk : cfg.kind = .nfcHoa) (h : cfg.order < 29) :
    ∃ pairs, ∀ source input, ModesConnected cfg source input pairs := by
  obtain ⟨pairs, hpairs, -, -⟩ := modePairs_ok h (cfg.order / 2 + 1) 0 (by omega)
  refine ⟨pairs, fun source input => ?_⟩
  have hnumbers : (modePointers source 0 pairs).map (modeNumber pairs) =
      (List.range (cfg.order + 1)).map some := by
    have hfirst : firstNumber cfg.order 0 = 0 := by
      unfold firstNumber
      omega
    rw [numbers_modePointers source (Nat.zero_add _) hpairs List.drop_zero, hfirst, Nat.sub_zero,
      Nat.sub_zero, ← List.range_eq_range']
  refine ⟨hpairs, ?_, ?_, ?_⟩
  · refine ⟨_, by simp only [RendererConfig.connect, hk, hpairs, bind, Except.bind]; rfl, ?_⟩
    rw [sourceModes_eq]
  · rw [sourceModes_eq, hnumbers]
  · have hperm := modePointers_perm source (List.drop_zero : pairs.drop 0 = pairs)
    rw [hnumbers] at hperm
    exact ((List.map_perm_map_iff (Option.some_injective _)).1 hperm).symm

theorem modesRouted {n : ℕ} {pairs : List ModePair} {s : SourceToOutput Element}
    (hs : Reach SourceToOutput.step SourceToOutput.Allowed (SourceToOutput.start n) s)
    (hconnected : ∀ modes ∈ s.connected, ∀ i < n, ∀ element, modes[i]? = some element →
      modeNumber pairs element = some i) (hpending : s.pending = []) :
    ModesRouted pairs s := by
  obtain ⟨-, -, hlen, hsublists⟩ := (SourceToOutput.sublists_right hs).1
  intro i hi
  have hmap := hsublists hpending i hi
  have hlength : s.sublists[i].length = s.connected.length := by
    simpa using congrArg List.length hmap
  refine List.forall₂_iff_get.2 ⟨hlength, fun k hk hk' => ?_⟩
  have hget : (s.connected.get ⟨k, hk'⟩)[i]? = some (s.sublists[i].get ⟨k, hk⟩) := by
    have hmapk := congrArg (·[k]?) hmap
    simpa [hk, hk'] using hmapk.symm
  exact ⟨List.mem_of_getElem? hget, hconnected _ (List.get_mem _ _) i (hlen ▸ hi) _ hget⟩

/-- **The modes of NFC-HOA**: with an order that `HoaCoefficients` supports every source gets the
modes 0, ..., `order`, and the accumulator `i` the modes `i` of the connected sources; with a higher
order `connect()` throws. The accumulators write every channel once, for any number of loudspeakers. -/
theorem nfcHoa_complete (cfg : RendererConfig) (hk : cfg.kind = .nfcHoa) (hL : 0 < cfg.outputs) :
    (cfg.order < 29 → ∃ pairs, (∀ source input, ModesConnected cfg source input pairs) ∧
      ∀ s, Reach SourceToOutput.step SourceToOutput.Allowed
          (SourceToOutput.start (modeAccumulators cfg.outputs).length) s →
        (∀ modes ∈ s.connected, ∃ source, modes = sourceModes source pairs) →
        s.pending = [] → ModesRouted pairs s) ∧
    (29 ≤ cfg.order → ∀ source input, ∃ e, cfg.connect source input = .error e) ∧
    ((modeAccumulators cfg.outputs).flatMap ModeAccumulator.channels).Perm
      (List.range cfg.outputs) ∧
    modeAccumulators cfg.outputs = (List.range (cfg.order + 1)).map fun i =>
      ⟨i, if 0 < i ∧ i ≠ cfg.outputs - i then some (cfg.outputs - i) else none⟩ := by
  refine ⟨fun h => ?_, fun h source input => connect_error source input ⟨hk, h⟩,
    channels_modeAccumulators hL, modeAccumulators_eq cfg.outputs⟩
  obtain ⟨pairs, hpairs⟩ := modesConnected hk h
  refine ⟨pairs, hpairs, fun s hs hconnected => modesRouted hs fun modes hmodes i hi element he => ?_⟩
  obtain ⟨source, rfl⟩ := hconnected modes hmodes
  have hnumber := congrArg (·[i]?) (hpairs source 0).2.2.1
  rw [modeAccumulators_eq, List.length_map, List.length_range] at hi
  simpa [he, show i < cfg.order + 1 from hi] using hnumber

def nfcHoaConfig (outputs : ℕ) : RendererConfig :=
  { kind := .nfcHoa, outputs, sourceError := fun _ => none }

/-- A source is connected with five loudspeakers. -/
theorem nfcHoa_complete_five : ∃ (pairs : List ModePair) (s : SourceToOutput Element),
    s.connected = [sourceModes 7 pairs] ∧ s.sublists.length = 3 ∧ ModesRouted pairs s := by
  obtain ⟨pairs, hpairs, hrouted⟩ :=
    (nfcHoa_complete (nfcHoaConfig 5) rfl (by decide)).1 (by decide)
  have hok : modePairs 2 0 2 = .ok [⟨none, ⟨2⟩⟩, ⟨some ⟨0⟩, ⟨1⟩⟩] := rfl
  obtain rfl := Except.ok.inj (hok.symm.trans (hpairs 7 0).1)
  have hrun : ∃ s, run SourceToOutput.step (SourceToOutput.start 3)
      [.connect (sourceModes 7 [⟨none, ⟨2⟩⟩, ⟨some ⟨0⟩, ⟨1⟩⟩]), .execute] = some s ∧
      s.connected = [sourceModes 7 [⟨none, ⟨2⟩⟩, ⟨some ⟨0⟩, ⟨1⟩⟩]] ∧ s.pending = [] ∧
      s.sublists.length = 3 := ⟨_, rfl, rfl, rfl, rfl⟩
  obtain ⟨s, hs, hconnected, hpending, hlength⟩ := hrun
  have hallowed : AllSteps SourceToOutput.step SourceToOutput.Allowed (SourceToOutput.start 3)
      [.connect (sourceModes 7 [⟨none, ⟨2⟩⟩, ⟨some ⟨0⟩, ⟨1⟩⟩]), .execute] :=
    (allSteps_cons rfl).2 ⟨⟨rfl, by decide⟩, (allSteps_cons rfl).2 ⟨trivial, allSteps_nil⟩⟩
  refine ⟨_, s, hconnected, hlength, hrouted s (.of_allSteps hs hallowed) ?_ hpending⟩
  intro modes hmodes
  rw [hconnected] at hmodes
  exact ⟨7, List.mem_singleton.1 hmodes⟩

/-- The coefficients for 58 loudspeakers do not exist. -/
theorem modes_not_connected : ¬ ∃ pairs, ModesConnected (nfcHoaConfig 58) 0 1 pairs := by
  rintro ⟨pairs, -, ⟨object, hobject, -⟩, -⟩
  have horder : (nfcHoaConfig 58).kind = .nfcHoa ∧ 29 ≤ (nfcHoaConfig 58).order := by decide
  obtain ⟨e, he⟩ := connect_error 0 1 horder
  rw [he] at hobject
  cases hobject

end Ssr
