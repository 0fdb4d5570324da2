import Ssr.Renderer.LoudspeakerRenderer
import Mathlib.Data.List.TakeWhile

/-!
# Channels of the loudspeakers

`created` and `skips` are what an element adds to the output list and to the channel number. As long
as `_next_loudspeaker_channel` does not overflow, loading wires up the elements before the first one
that cannot be loaded (`loadElements_spec`). The channel number also decides whether the setup is
empty, which it does not know if channels have been skipped (`channelsAssigned_iff`).
-/

set_option autoImplicit false

namespace Ssr

open Apf

namespace LoudspeakerRenderer

/-! ## What an element adds -/

section Elements
variable (T : Type) [DivisionRing T] [LinearOrder T] [CMath T] [FloatOps T]

/-- The loudspeakers of an element. -/
def created (node : Node) : Except String (List (LoudspeakerOutput T)) :=
  if node.name = "loudspeaker" then (readLoudspeaker node).map ([·])
  else if node.name = "linear_array" then readLinearArray node
  else if node.name = "circular_array" then readCircularArray node
  else .ok []

/-- The loudspeakers of an element that can be loaded. -/
def outputsOf (node : Node) : List (LoudspeakerOutput T) := (created T node).toOption.getD []

def loads (node : Node) : Bool := (created T node).toOption.isSome

/-- The channels that an element skips. -/
def skips (node : Node) : ℕ := if node.name = "skip" then skipNumber node else 0

/-- The channels that the elements before the `k`-th loudspeaker skip. -/
def skipsBefore : List Node → ℕ → ℕ
  | [], _ => 0
  | e :: es, k =>
    if k < (outputsOf T e).length then 0
    else skips e + skipsBefore es (k - (outputsOf T e).length)

/-- By how much the elements raise `_next_loudspeaker_channel`. -/
def channels (elements : List Node) : ℕ :=
  (elements.map fun e => (outputsOf T e).length + skips e).sum

end Elements

theorem skipNumber_pos (node : Node) : 0 < skipNumber node := by
  unfold skipNumber
  split
  · exact Nat.one_pos
  · split
    · exact Nat.one_pos
    · rename_i number _ hnumber
      have hle : (1 : Int32).toInt ≤ number.toInt := Int32.le_iff_toInt_le.1 (Int32.not_lt.1 hnumber)
      have hone : (1 : Int32).toInt = 1 := by decide
      omega

theorem intMax_ge_one : (1 : ℤ) ≤ intMax := by decide

/-! ## The loops -/

variable {T : Type} (cfg : LoudspeakerConfig)

/-- Loudspeakers that are added from the channel `c` on. -/
def connected : ℤ → List (LoudspeakerOutput T) → List (LoudspeakerOutput T)
  | _, [] => []
  | c, p :: ps => { p with connectTo := connection cfg c } :: connected (c + 1) ps

theorem length_connected (ps : List (LoudspeakerOutput T)) (c : ℤ) :
    (connected cfg c ps).length = ps.length := by
  induction ps generalizing c with
  | nil => rfl
  | cons p ps ih => simp [connected, ih]

theorem connectTo_connected {ps : List (LoudspeakerOutput T)} {c : ℤ} {k : ℕ}
    {output : LoudspeakerOutput T} (h : (connected cfg c ps)[k]? = some output) :
    output.connectTo = connection cfg (c + k) := by
  induction ps generalizing c k with
  | nil => simp [connected] at h
  | cons p ps ih =>
    cases k with
    | zero =>
      simp only [connected, List.getElem?_cons_zero, Option.some.injEq] at h
      subst h
      simp
    | succ k =>
      simp only [connected, List.getElem?_cons_succ] at h
      rw [ih h]
      congr 1
      push_cast
      omega

/-- The renderer after `ps` have been added and `n` channels skipped, in either order if one of them
is zero; or the channel number has overflowed. -/
def Advanced (r : LoudspeakerRenderer T) (ps : List (LoudspeakerOutput T)) (n : ℕ)
    (result : LoudspeakerRenderer T × Option Stop) : Prop :=
  (r.nextLoudspeakerChannel + (ps.length + n : ℕ) ≤ intMax ∧ result =
    ({ nextLoudspeakerChannel := r.nextLoudspeakerChannel + (ps.length + n : ℕ)
       outputs := r.outputs ++ connected cfg r.nextLoudspeakerChannel ps }, none)) ∨
  (intMax < r.nextLoudspeakerChannel + (ps.length + n : ℕ) ∧ result.2 = some .overflow)

variable {r : LoudspeakerRenderer T}

theorem forEach_nextChannel (hr : r.nextLoudspeakerChannel ≤ intMax) {α : Type} (as : List α) :
    Advanced cfg r [] as.length (forEach (fun r _ => r.nextChannel) r as) := by
  induction as generalizing r with
  | nil => exact .inl ⟨by simpa using hr, by simp [forEach, connected]⟩
  | cons a as ih =>
    by_cases hlt : r.nextLoudspeakerChannel < intMax
    · have hih := ih (r := { r with nextLoudspeakerChannel := r.nextLoudspeakerChannel + 1 }) hlt
      have hchannel : r.nextLoudspeakerChannel + 1 + (0 + as.length : ℕ) =
          r.nextLoudspeakerChannel + (0 + (a :: as).length : ℕ) := by
        rw [List.length_cons]
        push_cast
        omega
      simp only [Advanced, List.length_nil, connected, hchannel] at hih ⊢
      simpa only [forEach, nextChannel, if_pos hlt] using hih
    · refine .inr ⟨?_, by simp [forEach, nextChannel, hlt]⟩
      rw [List.length_cons]
      push_cast
      omega

theorem forEach_addOutput (hr : r.nextLoudspeakerChannel ≤ intMax)
    (ps : List (LoudspeakerOutput T)) :
    Advanced cfg r ps 0 (forEach (addOutput cfg) r ps) := by
  induction ps generalizing r with
  | nil => exact .inl ⟨by simpa using hr, by simp [forEach, connected]⟩
  | cons p ps ih =>
    by_cases hlt : r.nextLoudspeakerChannel < intMax
    · have hih := ih (r :=
        { nextLoudspeakerChannel := r.nextLoudspeakerChannel + 1
          outputs := r.outputs ++ [{ p with connectTo := connection cfg r.nextLoudspeakerChannel }] })
        hlt
      have hchannel : r.nextLoudspeakerChannel + 1 + (ps.length + 0 : ℕ) =
          r.nextLoudspeakerChannel + ((p :: ps).length + 0 : ℕ) := by
        rw [List.length_cons]
        push_cast
        omega
      simp only [Advanced, connected, hchannel, List.append_assoc, List.singleton_append] at hih ⊢
      simpa only [forEach, addOutput, nextChannel, if_pos hlt] using hih
    · refine .inr ⟨?_, by simp [forEach, addOutput, nextChannel, hlt]⟩
      rw [List.length_cons]
      push_cast
      omega

/-! ## The elements -/

variable [DivisionRing T] [LinearOrder T] [CMath T] [FloatOps T]

/-- **One element** is not loaded, or it adds its loudspeakers and skips its channels. -/
theorem loadElement_spec (hr : r.nextLoudspeakerChannel ≤ intMax) (node : Node) :
    (loads T node = false ∧ ∃ e, loadElement cfg r node = (r, some (.threw e))) ∨
    (loads T node = true ∧
      Advanced cfg r (outputsOf T node) (skips node) (loadElement cfg r node)) := by
  have hadd : ∀ params : Except String (List (LoudspeakerOutput T)), created T node = params →
      skips node = 0 → loadElement cfg r node = r.addOutputs cfg params →
      (loads T node = false ∧ ∃ e, loadElement cfg r node = (r, some (.threw e))) ∨
      (loads T node = true ∧
        Advanced cfg r (outputsOf T node) (skips node) (loadElement cfg r node)) := by
    rintro params rfl hskips hload
    rw [hload, hskips, loads, outputsOf]
    cases created T node with
    | error e => exact .inl ⟨rfl, e, rfl⟩
    | ok ps => exact .inr ⟨rfl, forEach_addOutput cfg hr ps⟩
  by_cases hspeaker : node.name = "loudspeaker"
  · exact hadd ((readLoudspeaker node).map ([·])) (by simp [created, hspeaker])
      (by simp [skips, hspeaker]) (by simp [loadElement, hspeaker, loadLoudspeaker])
  · by_cases hlinear : node.name = "linear_array"
    · exact hadd (readLinearArray node) (by simp [created, hlinear]) (by simp [skips, hlinear])
        (by simp [loadElement, hlinear, loadLinearArray])
    · by_cases hcircular : node.name = "circular_array"
      · exact hadd (readCircularArray node) (by simp [created, hcircular])
          (by simp [skips, hcircular]) (by simp [loadElement, hcircular, loadCircularArray])
      · have hcreated : created T node = .ok [] := by
          simp [created, hspeaker, hlinear, hcircular]
        have houtputs : outputsOf T node = [] := by rw [outputsOf, hcreated]; rfl
        refine .inr ⟨by rw [loads, hcreated]; rfl, ?_⟩
        rw [houtputs]
        by_cases hskip : node.name = "skip"
        · have hload := forEach_nextChannel cfg hr (List.range (skipNumber node))
          rw [List.length_range] at hload
          simpa [skips, loadElement, hskip] using hload
        · refine .inl ?_
          simpa [skips, loadElement, hspeaker, hlinear, hcircular, hskip, connected] using hr

/-- The output list of elements that are loaded from the channel `c` on. -/
def wired : ℤ → List Node → List (LoudspeakerOutput T)
  | _, [] => []
  | c, e :: es =>
    connected cfg c (outputsOf T e) ++
      wired (c + ((outputsOf T e).length + skips e : ℕ)) es

theorem connectTo_wired {elements : List Node} {c : ℤ} {k : ℕ} {output : LoudspeakerOutput T}
    (h : (wired cfg c elements)[k]? = some output) :
    output.connectTo = connection cfg (c + k + skipsBefore T elements k) := by
  induction elements generalizing c k with
  | nil => simp [wired] at h
  | cons e es ih =>
    rw [wired, List.getElem?_append, length_connected] at h
    rw [skipsBefore]
    split at h
    · rename_i hlt
      rw [if_pos hlt, connectTo_connected cfg h]
      simp
    · rename_i hge
      rw [if_neg hge, ih h]
      congr 1
      push_cast
      omega

theorem skipsBefore_append {elements : List Node} (rest : List Node) {k : ℕ}
    (hk : k < (elements.map fun e => (outputsOf T e).length).sum) :
    skipsBefore T (elements ++ rest) k = skipsBefore T elements k := by
  induction elements generalizing k with
  | nil => simp at hk
  | cons e es ih =>
    rw [List.map_cons, List.sum_cons] at hk
    rw [List.cons_append, skipsBefore, skipsBefore]
    split
    · rfl
    · rw [ih (by omega)]

theorem length_wired (elements : List Node) (c : ℤ) :
    (wired (T := T) cfg c elements).length =
      (elements.map fun e => (outputsOf T e).length).sum := by
  induction elements generalizing c with
  | nil => rfl
  | cons e es ih => simp [wired, length_connected, ih]

/-- **All elements** up to the first one that cannot be loaded. -/
theorem loadElements_spec (hr : r.nextLoudspeakerChannel ≤ intMax) (elements : List Node) :
    let loaded := elements.takeWhile (loads T)
    let result := forEach (loadElement cfg) r elements
    (r.nextLoudspeakerChannel + channels T loaded ≤ intMax ∧
      result.1 =
        { nextLoudspeakerChannel := r.nextLoudspeakerChannel + channels T loaded
          outputs := r.outputs ++ wired cfg r.nextLoudspeakerChannel loaded } ∧
      ((loaded = elements ∧ result.2 = none) ∨
        (loaded ≠ elements ∧ ∃ e, result.2 = some (.threw e)))) ∨
    (intMax < r.nextLoudspeakerChannel + channels T loaded ∧ result.2 = some .overflow) := by
  induction elements generalizing r with
  | nil =>
    exact .inl ⟨by simpa [channels] using hr, by simp [forEach, channels, wired], .inl ⟨rfl, rfl⟩⟩
  | cons e es ih =>
    rcases loadElement_spec cfg hr e with ⟨hloads, message, hload⟩ | ⟨hloads, hload⟩
    · refine .inl ?_
      simp only [List.takeWhile_cons, hloads, forEach, hload]
      exact ⟨by simpa [channels] using hr, by simp [channels, wired], .inr ⟨by simp, message, rfl⟩⟩
    · have hsum : (channels T (e :: es.takeWhile (loads T)) : ℤ) =
          ((outputsOf T e).length + skips e : ℕ) + channels T (es.takeWhile (loads T)) := by
        simp [channels]
      simp only [List.takeWhile_cons, hloads, if_true, hsum, wired]
      rcases hload with ⟨hle, hload⟩ | ⟨hlt, hload⟩
      · have hih := ih (r :=
          { nextLoudspeakerChannel :=
              r.nextLoudspeakerChannel + ((outputsOf T e).length + skips e : ℕ)
            outputs := r.outputs ++ connected cfg r.nextLoudspeakerChannel (outputsOf T e) }) hle
        simp only [forEach, hload]
        simpa only [List.append_assoc, add_assoc, List.cons.injEq, true_and, ne_eq] using hih
      · refine .inr ⟨by omega, ?_⟩
        simp only [forEach]
        generalize loadElement cfg r e = result at hload ⊢
        obtain ⟨r', stop⟩ := result
        obtain rfl : stop = some .overflow := hload
        rfl

theorem loadElements_new (elements : List Node) :
    let loaded := elements.takeWhile (loads T)
    let result := forEach (loadElement (T := T) cfg) new elements
    (1 + channels T loaded ≤ intMax ∧ result.1.nextLoudspeakerChannel = 1 + channels T loaded ∧
      result.1.outputs = wired cfg 1 loaded ∧
      ((loaded = elements ∧ result.2 = none) ∨
        (loaded ≠ elements ∧ ∃ e, result.2 = some (.threw e)))) ∨
    (intMax < 1 + channels T loaded ∧ result.2 = some .overflow) := by
  rcases loadElements_spec (T := T) (r := new) cfg intMax_ge_one elements with
    ⟨hle, hresult, hend⟩ | hoverflow
  · exact .inl ⟨hle, congrArg nextLoudspeakerChannel hresult, congrArg outputs hresult, hend⟩
  · exact .inr hoverflow

/-! ## The whole setup -/

variable (T) in
/-- What a setup is meant to do: the `k`-th loudspeaker is connected to the port `1 + k` plus the
channels skipped before it, and loading throws exactly if there is no loudspeaker. -/
structure ChannelsAssigned (elements : List Node)
    (result : LoudspeakerRenderer T × Option Stop) : Prop where
  defined : result.2 ≠ some .overflow
  connected : ∀ k output, result.1.outputs[k]? = some output →
    output.connectTo = connection cfg (1 + k + skipsBefore T elements k)
  empty : (∀ e ∈ elements, loads T e = true) →
    ((∃ message, result.2 = some (.threw message)) ↔ result.1.outputs = [])

theorem skips_eq_zero {node : Node} : skips node = 0 ↔ node.name ≠ "skip" := by
  unfold skips
  split
  · rename_i h
    exact ⟨fun h0 => absurd h0 (skipNumber_pos node).ne', fun hne => absurd h hne⟩
  · rename_i h
    exact ⟨fun _ => h, fun _ => rfl⟩

/-- The channel number counts the loudspeakers and the skipped channels. -/
theorem channels_eq (elements : List Node) :
    channels T elements = (elements.map fun e => (outputsOf T e).length).sum +
      (elements.map skips).sum := by
  induction elements with
  | nil => rfl
  | cons e es ih =>
    simp only [channels, List.map_cons, List.sum_cons] at ih ⊢
    omega

theorem sum_outputs_eq_zero {elements : List Node} :
    (elements.map fun e => (outputsOf T e).length).sum = 0 ↔
      ∀ e ∈ elements, outputsOf T e = [] := by
  rw [List.sum_eq_zero_iff]
  simp

theorem wired_eq_nil_iff {elements : List Node} {c : ℤ} :
    wired (T := T) cfg c elements = [] ↔ ∀ e ∈ elements, outputsOf T e = [] := by
  rw [← List.length_eq_zero_iff, length_wired, sum_outputs_eq_zero]

/-- The channel number is still the first one. -/
theorem channels_lt_one_iff {elements : List Node} : (1 + channels T elements : ℤ) < 2 ↔
    (∀ e ∈ elements, outputsOf T e = []) ∧ ∀ e ∈ elements, e.name ≠ "skip" := by
  have hskips : (elements.map skips).sum = 0 ↔ ∀ e ∈ elements, e.name ≠ "skip" := by
    rw [List.sum_eq_zero_iff]
    simp [skips_eq_zero]
  rw [← sum_outputs_eq_zero, ← hskips, channels_eq]
  omega

/-- When it is the same whether the channel number is still the first one or there is no
loudspeaker. -/
theorem noLoudspeaker_iff (elements : List Node) :
    (((∀ e ∈ elements, outputsOf T e = []) ∧ ∀ e ∈ elements, e.name ≠ "skip") ↔
      ∀ e ∈ elements, outputsOf T e = []) ↔
    (∃ e ∈ elements, outputsOf T e ≠ []) ∨ ∀ e ∈ elements, e.name ≠ "skip" := by
  rw [and_iff_left_iff_imp]
  constructor
  · intro h
    by_cases hall : ∀ e ∈ elements, outputsOf T e = []
    · exact .inr (h hall)
    · push Not at hall
      exact .inl hall
  · rintro (⟨e, he, hne⟩ | h) hall
    · exact absurd (hall e he) hne
    · exact h

/-- The loudspeakers of the elements before the first one that cannot be loaded. -/
theorem connectTo_loaded (elements : List Node) {k : ℕ} {output : LoudspeakerOutput T}
    (hk : (wired cfg 1 (elements.takeWhile (loads T)))[k]? = some output) :
    output.connectTo = connection cfg (1 + k + skipsBefore T elements k) := by
  have hlt := (List.getElem?_eq_some_iff.1 hk).1
  rw [length_wired] at hlt
  rw [connectTo_wired cfg hk, ← skipsBefore_append (elements.dropWhile (loads T)) hlt,
    List.takeWhile_append_dropWhile]

theorem takeWhile_loads_eq {elements : List Node} (h : ∀ e ∈ elements, loads T e = true) :
    elements.takeWhile (loads T) = elements := by
  rw [List.takeWhile_eq_self_iff]
  exact h

/-- Where `load_reproduction_setup` goes if the file can be read and is valid. -/
theorem loadReproductionSetup_eq {cfg : LoudspeakerConfig} (doc : Node) {valid : Bool}
    (hname : cfg.reproductionSetup ≠ "") (hvalid : cfg.xmlSchema = "" ∨ valid = true) :
    let elements := doc.evalXpathAny "reproduction_setup"
    let result := forEach (loadElement (T := T) cfg) new elements
    let loaded := loadReproductionSetup (T := T) cfg (some doc) valid
    loaded.1 = result.1 ∧
      (result.2 = none → ((∃ message, loaded.2 = some (.threw message)) ↔
        result.1.nextLoudspeakerChannel < 2) ∧ loaded.2 ≠ some .overflow) ∧
      (result.2 ≠ none → loaded.2 = result.2) := by
  have hschema : (cfg.xmlSchema ≠ "" && !valid) = false := by
    rcases hvalid with h | h <;> simp [h]
  simp only [loadReproductionSetup, if_neg hname, hschema]
  cases doc.evalXpathAny "reproduction_setup" with
  | nil =>
    exact ⟨rfl, fun _ => ⟨⟨fun _ => one_lt_two, fun _ => ⟨_, rfl⟩⟩, by simp⟩, fun h => absurd rfl h⟩
  | cons e es =>
    simp only [Bool.false_eq_true, if_false]
    generalize forEach (loadElement (T := T) cfg) new (e :: es) = result
    obtain ⟨r, stop⟩ := result
    cases stop with
    | none =>
      by_cases hlt : r.nextLoudspeakerChannel < 2
      · simp [hlt]
      · simp [hlt]
    | some stop => simp

/-- **Channels are assigned** as they should be exactly if the channel number does not overflow
before the first element that cannot be loaded and there is a loudspeaker or nothing is skipped. -/
theorem channelsAssigned_iff {cfg : LoudspeakerConfig} (doc : Node) {valid : Bool}
    (hname : cfg.reproductionSetup ≠ "") (hvalid : cfg.xmlSchema = "" ∨ valid = true) :
    let elements := doc.evalXpathAny "reproduction_setup"
    ChannelsAssigned T cfg elements (loadReproductionSetup cfg (some doc) valid) ↔
      1 + channels T (elements.takeWhile (loads T)) ≤ intMax ∧
      ((∀ e ∈ elements, loads T e = true) →
        (∃ e ∈ elements, outputsOf T e ≠ []) ∨ ∀ e ∈ elements, e.name ≠ "skip") := by
  intro elements
  obtain ⟨houtputs, hnone, hstop⟩ := loadReproductionSetup_eq (T := T) doc hname hvalid
  generalize loadReproductionSetup (T := T) cfg (some doc) valid = loaded at houtputs hnone hstop ⊢
  rcases loadElements_new (T := T) cfg elements with ⟨hle, hchannel, hwired, hend⟩ | ⟨hlt, hend⟩
  · have hwired : loaded.1.outputs = wired cfg 1 (elements.takeWhile (loads T)) :=
      (congrArg outputs houtputs).trans hwired
    rw [hchannel] at hnone
    have hdefined : loaded.2 ≠ some .overflow := by
      rcases hend with ⟨-, hend⟩ | ⟨-, message, hend⟩
      · exact (hnone hend).2
      · rw [hstop (by rw [hend]; simp), hend]
        simp
    have hconnected : ∀ k output, loaded.1.outputs[k]? = some output →
        output.connectTo = connection cfg (1 + k + skipsBefore T elements k) := by
      intro k output hk
      rw [hwired] at hk
      exact connectTo_loaded cfg elements hk
    have hempty : (∀ e ∈ elements, loads T e = true) →
        (((∃ message, loaded.2 = some (.threw message)) ↔ loaded.1.outputs = []) ↔
          (∃ e ∈ elements, outputsOf T e ≠ []) ∨ ∀ e ∈ elements, e.name ≠ "skip") := by
      intro hall
      rw [takeWhile_loads_eq hall] at hend hnone hwired
      have hend : _ = none := hend.elim And.right fun h => absurd rfl h.1
      rw [(hnone hend).1, channels_lt_one_iff, hwired, wired_eq_nil_iff]
      exact noLoudspeaker_iff elements
    constructor
    · exact fun h => ⟨hle, fun hall => (hempty hall).1 (h.empty hall)⟩
    · exact fun h => ⟨hdefined, hconnected, fun hall => (hempty hall).2 (h.2 hall)⟩
  · have hoverflow : loaded.2 = some .overflow := by
      rw [hstop (by rw [hend]; simp), hend]
    constructor
    · exact fun h => absurd hoverflow h.defined
    · rintro ⟨hle, -⟩
      exact absurd hle (not_le.2 hlt)

def skipTwo : Node := .element "skip" [("number", "2")] []

def loudspeakerAtOne : Node :=
  .element "loudspeaker" []
    [.element "position" [("x", "1"), ("y", "0")] [],
      .element "orientation" [("azimuth", "180")] []]

def setup (elements : List Node) : Node :=
  .element "asdf" [] [.element "reproduction_setup" [] elements]

def setupConfig : LoudspeakerConfig :=
  { reproductionSetup := "setup.asd", xmlSchema := "", systemOutputPrefix := "system:playback_" }

/-- A loudspeaker after two skipped channels. -/
theorem channelsAssigned_speaker :
    ChannelsAssigned ℝ setupConfig [skipTwo, loudspeakerAtOne]
      (loadReproductionSetup setupConfig (some (setup [skipTwo, loudspeakerAtOne])) true) := by
  have hchannels : channels ℝ ([skipTwo, loudspeakerAtOne].takeWhile (loads ℝ)) = 3 := rfl
  have hspeaker : outputsOf ℝ loudspeakerAtOne ≠ [] := List.cons_ne_nil _ _
  have hname : setupConfig.reproductionSetup ≠ "" := by decide
  refine (channelsAssigned_iff (setup [skipTwo, loudspeakerAtOne]) hname (.inl rfl)).2
    ⟨?_, fun _ => .inl ⟨loudspeakerAtOne, ?_, hspeaker⟩⟩
  · change 1 + ((channels ℝ ([skipTwo, loudspeakerAtOne].takeWhile (loads ℝ)) : ℕ) : ℤ) ≤ intMax
    rw [hchannels]
    decide
  · exact List.mem_cons_of_mem _ List.mem_cons_self

/-- A setup that skips two channels and has no loudspeaker loads. -/
theorem skipTwo_not_assigned :
    ¬ ChannelsAssigned ℝ setupConfig [skipTwo]
      (loadReproductionSetup setupConfig (some (setup [skipTwo])) true) := by
  have hload : loadReproductionSetup (T := ℝ) setupConfig (some (setup [skipTwo])) true =
      ({ nextLoudspeakerChannel := 3, outputs := [] }, none) := rfl
  have hloads : ∀ e ∈ [skipTwo], loads ℝ e = true := by
    intro e he
    obtain rfl := List.mem_singleton.1 he
    rfl
  intro h
  obtain ⟨message, hmessage⟩ := (h.empty hloads).2 (by rw [hload])
  rw [hload] at hmessage
  cases hmessage

end LoudspeakerRenderer

end Ssr
