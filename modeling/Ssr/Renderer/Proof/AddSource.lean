import Ssr.Lib.Run
import Ssr.Renderer.Proof.Execute
import Mathlib.Tactic.Ring

/-!
# Adding sources

The only `connect()` that throws is the one of NFC-HOA with an order that `HoaCoefficients` does not
support (`connect_ok`, `connect_error`). `Ready.addSource` says what a call of `add_source` leaves
behind, and `failed_addSource_noTrace_iff` which failing calls leave nothing.
-/

set_option autoImplicit false

namespace Ssr

open Lib

/-! ## Connecting -/

theorem coeffsBegin_lt_iff (n : ℕ) : coeffsBegin n < laplaceCoeffsRows ↔ n < 29 := by
  unfold coeffsBegin laplaceCoeffsRows
  constructor
  · intro h
    by_contra hn
    have hsq : 29 * 29 ≤ n * n := Nat.mul_le_mul (by omega) (by omega)
    rw [if_neg (by omega)] at h
    omega
  · intro h
    have hsq : n * n ≤ 28 * 28 := Nat.mul_le_mul (by omega) (by omega)
    split <;> omega

theorem Mode.new_ok {n : ℕ} (h : n < 29) : Mode.new n = .ok ⟨n⟩ := by
  rw [Mode.new, if_neg (Nat.not_le.2 ((coeffsBegin_lt_iff n).2 h))]

theorem Mode.new_error {n : ℕ} (h : 29 ≤ n) : ∃ e, Mode.new n = .error e := by
  have hn : ¬ n < 29 := Nat.not_lt.2 h
  rw [← coeffsBegin_lt_iff, Nat.not_lt] at hn
  exact ⟨_, by rw [Mode.new, if_pos hn]⟩

/-- With a supported order no pair throws; only the first pair of an even order has one mode. -/
theorem ModePair.new_ok {m order : ℕ} (h : order < 29) (hm : m ≤ order / 2) :
    ∃ pair, ModePair.new m order = .ok pair ∧
      pair.first.isSome = !(m == 0 && order % 2 == 0) := by
  unfold ModePair.new
  simp only [Mode.new_ok (show order - m < 29 by omega), bind, Except.bind]
  split
  · rename_i hc
    refine ⟨_, rfl, ?_⟩
    simp only [hc.1, BEq.rfl, Bool.true_and, Option.isSome_none]
    simpa using hc.2
  · rename_i hc
    rw [Mode.new_ok (by omega)]
    refine ⟨_, rfl, ?_⟩
    rw [not_and_or] at hc
    rcases hc with hc | hc
    · simp [hc]
    · have hodd : (order % 2 == 0) = false := by simpa using hc
      simp [hodd]

theorem modePairs_ok {order : ℕ} (h : order < 29) :
    ∀ (count m : ℕ), m + count ≤ order / 2 + 1 →
      ∃ pairs, modePairs order m count = .ok pairs ∧ pairs.length = count ∧
        ∀ source n, (modePointers source n pairs).length =
          2 * count - (if m = 0 ∧ order % 2 = 0 ∧ 0 < count then 1 else 0)
  | 0, m, _ => ⟨[], rfl, rfl, fun _ _ => by simp [modePointers]⟩
  | count + 1, m, hm => by
    obtain ⟨pair, hpair, hfirst⟩ := ModePair.new_ok h (show m ≤ order / 2 by omega)
    obtain ⟨pairs, hpairs, hlen, hptr⟩ := modePairs_ok h count (m + 1) (by omega)
    refine ⟨pair :: pairs, ?_, by rw [List.length_cons, hlen], fun source n => ?_⟩
    · simp only [modePairs, hpair, hpairs, bind, Except.bind, pure, Except.pure]
    · rw [modePointers, List.length_append, List.length_append, hptr, hfirst]
      rw [if_neg (show ¬ (m + 1 = 0 ∧ order % 2 = 0 ∧ 0 < count) by omega)]
      by_cases hc : m = 0 ∧ order % 2 = 0
      · simp [hc.1, hc.2]
        omega
      · have hsome : (!(m == 0 && order % 2 == 0)) = true := by
          rcases not_and_or.1 hc with hc | hc <;> simp [hc]
        rw [hsome, if_neg (show ¬ (m = 0 ∧ order % 2 = 0 ∧ 0 < count + 1) by tauto)]
        simp
        omega

theorem modePairs_error {order : ℕ} (count : ℕ) (h : 29 ≤ order) :
    ∃ e, modePairs order 0 (count + 1) = .error e := by
  obtain ⟨e, he⟩ := Mode.new_error h
  exact ⟨e, by simp only [modePairs, ModePair.new, Nat.sub_zero, he, bind, Except.bind]⟩

theorem source_modePointers {source : Ptr} :
    ∀ {n : ℕ} {pairs : List ModePair}, ∀ x ∈ modePointers source n pairs, x.source = source
  | _, [], _, h => by cases h
  | n, pair :: pairs, x, h => by
    simp only [modePointers, List.mem_append, List.mem_singleton] at h
    rcases h with (h | h) | rfl
    · split at h
      · rw [List.mem_singleton.1 h]
        rfl
      · cases h
    · exact source_modePointers x h
    · rfl

/-- What a source keeps after `connect()`. -/
structure Keeps (cfg : RendererConfig) (source input : Ptr) (object : SourceObject) : Prop where
  input : object.input = input
  length : ∀ es, object.elements = some es → es.length = cfg.sublists
  own : ∀ es, object.elements = some es → ∀ x ∈ es, x.source = source
  nodup : object.modePairs.Nodup
  ownPairs : ∀ p ∈ object.modePairs, p.1 = source

theorem connect_ok {cfg : RendererConfig} (source input : Ptr)
    (h : ¬ (cfg.kind = .nfcHoa ∧ 29 ≤ cfg.order)) :
    ∃ object, cfg.connect source input = .ok object ∧ Keeps cfg source input object := by
  have hchannels : cfg.kind ≠ .nfcHoa → Keeps cfg source input
      { input, elements := some ((List.range cfg.outputs).map (.channel source ·))
        modePairs := [] } := by
    intro hk
    refine ⟨rfl, fun es hes => ?_, fun es hes x hx => ?_, .nil, by simp⟩
    · cases hes
      rw [List.length_map, List.length_range, RendererConfig.sublists]
      split
      · contradiction
      · rfl
    · cases hes
      obtain ⟨i, -, rfl⟩ := List.mem_map.1 hx
      rfl
  unfold RendererConfig.connect
  cases hk : cfg.kind with
  | vbap => exact ⟨_, rfl, rfl, fun _ h => (by cases h), fun _ h => (by cases h), .nil, by simp⟩
  | nfcHoa =>
    obtain ⟨pairs, hpairs, -, hptr⟩ := modePairs_ok (Nat.not_le.1 fun hle => h ⟨hk, hle⟩)
      (cfg.order / 2 + 1) 0 (by omega)
    refine ⟨_, by simp only [hpairs, bind, Except.bind]; rfl, rfl, fun es hes => ?_,
      fun es hes => ?_, ?_, fun p hp => ?_⟩
    · cases hes
      rw [hptr, RendererConfig.sublists, hk]
      simp only [true_and]
      split <;> omega
    · cases hes
      exact source_modePointers
    · exact List.nodup_range.map fun a b hab => (Prod.mk.inj hab).2
    · obtain ⟨i, -, rfl⟩ := List.mem_map.1 hp
      rfl
  | binaural | brs | generic | wfs | aap => exact ⟨_, rfl, hchannels (by rw [hk]; decide)⟩

theorem connect_error {cfg : RendererConfig} (source input : Ptr)
    (h : cfg.kind = .nfcHoa ∧ 29 ≤ cfg.order) : ∃ e, cfg.connect source input = .error e := by
  obtain ⟨e, he⟩ := modePairs_error (cfg.order / 2) h.2
  exact ⟨e, by simp only [RendererConfig.connect, h.1, he, bind, Except.bind]⟩

/-! ## The whole call -/

namespace Renderer

variable {F : Type} {cfg : RendererConfig} {r : Renderer F} {rt : RtState F}

/-- The commands of `connect()` put the new source into all its lists. -/
theorem execute_connect (rt : RtState F) {source input : Ptr} {object : SourceObject}
    (hobj : Keeps cfg source input object) (hi : input + 1 = source)
    (hlen : rt.sublists.length = cfg.sublists) (hin : input ∈ rt.inputList)
    (hsrc : source ∈ rt.sourceList) :
    ∃ rt', executeAll rt (cfg.connectCommands object) = .ok rt' ∧
      rt'.sublists.length = rt.sublists.length ∧ rt'.inputList = rt.inputList ∧
      rt'.sourceList = rt.sourceList ∧ rt'.data = rt.data ∧ rt'.state = rt.state ∧
      Listed cfg object source rt' ∧
      ∀ object' source', Listed cfg object' source' rt → Listed cfg object' source' rt' := by
  obtain ⟨modePairList, hpairs, hold, hnew⟩ : ∃ modePairList,
      executeAll rt (if cfg.kind = .nfcHoa then [.addModePairs object.modePairs] else []) =
        .ok { rt with modePairList } ∧ (∀ p ∈ rt.modePairList, p ∈ modePairList) ∧
      (cfg.kind = .nfcHoa → ∀ p ∈ object.modePairs, p ∈ modePairList) := by
    by_cases hk : cfg.kind = .nfcHoa
    · refine ⟨rt.modePairList ++ object.modePairs, by rw [if_pos hk]; rfl, fun p hp => ?_,
        fun _ p hp => ?_⟩
      · exact List.mem_append_left _ hp
      · exact List.mem_append_right _ hp
    · exact ⟨rt.modePairList, by rw [if_neg hk]; rfl, fun p hp => hp, fun h => absurd h hk⟩
  obtain ⟨sublists, hsub, hlen', hkeep, hconn⟩ : ∃ sublists,
      executeAll { rt with modePairList } (object.elements.toList.map .addToSublist) =
        .ok { rt with modePairList, sublists } ∧ sublists.length = rt.sublists.length ∧
      (∀ es, Connected es rt.sublists → Connected es sublists) ∧
      ∀ es, object.elements = some es → Connected es sublists := by
    cases hes : object.elements with
    | none => exact ⟨rt.sublists, rfl, rfl, fun _ hc => hc, fun _ h => by cases h⟩
    | some es =>
      have hl : es.length = rt.sublists.length := (hobj.length es hes).trans hlen.symm
      refine ⟨List.zipWith (fun x member => member ++ [x]) es rt.sublists, ?_, ?_, ?_, ?_⟩
      · simp only [Option.toList_some, List.map_cons, List.map_nil, executeAll, Command.execute,
          distributeList_ok hl]
        rfl
      · rw [List.length_zipWith, hl, Nat.min_self]
      · exact fun es' hc => hc.distribute hl
      · intro es' hes'
        cases hes'
        exact connected_distribute hl
  refine ⟨{ rt with modePairList, sublists }, ?_, hlen', rfl, rfl, rfl, rfl, ?_, ?_⟩
  · rw [RendererConfig.connectCommands, executeAll_append, hpairs]
    exact hsub
  · exact ⟨hobj.input ▸ hi, hobj.input ▸ hin, hsrc, hobj.own, hconn, hobj.nodup, hobj.ownPairs,
      hnew⟩
  · intro object' source' h
    exact ⟨h.input, h.inputList, h.sourceList, h.own, fun es hes => hkeep es (h.connected es hes),
      h.nodup, h.ownPairs, fun hk p hp => hold p (h.modePairs hk p hp)⟩

theorem Listed.mono {object : SourceObject} {source : Ptr} {rt' : RtState F}
    (h : Listed cfg object source rt) (hin : ∀ p ∈ rt.inputList, p ∈ rt'.inputList)
    (hsrc : ∀ p ∈ rt.sourceList, p ∈ rt'.sourceList) (hsub : rt'.sublists = rt.sublists)
    (hpairs : rt'.modePairList = rt.modePairList) : Listed cfg object source rt' :=
  ⟨h.input, hin _ h.inputList, hsrc _ h.sourceList, h.own, hsub ▸ h.connected, h.nodup, h.ownPairs,
    hpairs ▸ h.modePairs⟩

/-- A new id and two new addresses are taken. -/
def allocate (r : Renderer F) : Renderer F :=
  { r with highestId := r.highestId + 1, nextPtr := r.nextPtr + 2 }

theorem Ready.allocate (h : Ready cfg r rt) : Ready cfg r.allocate rt where
  flushed := h.flushed
  sublists := h.sublists
  fresh p hp := Nat.lt_add_right 2 (h.fresh p hp)
  freshSource p hp := Nat.lt_add_right 2 (h.freshSource p hp)
  nodup := h.nodup
  bounded id source hid := by
    obtain ⟨hptr, hpos, hle⟩ := h.bounded id source hid
    exact ⟨Nat.lt_add_right 2 hptr, hpos, Nat.le_succ_of_le hle⟩
  injective := h.injective
  listed := h.listed

variable [FloatOps F]

/-- The realtime state with the new input and the new source. -/
def created (r : Renderer F) (rt : RtState F) : RtState F :=
  { rt with
    inputList := rt.inputList ++ [r.nextPtr]
    sourceList := rt.sourceList ++ [r.nextPtr + 1]
    data := fun q => if q = r.nextPtr + 1 then .new else rt.data q }

theorem Ready.created (h : Ready cfg r rt) :
    Ready cfg ((r.allocate.push [.addInput r.nextPtr]).push [.addSource (r.nextPtr + 1) .new])
      (r.created rt) where
  flushed := by
    rw [Renderer.flushed_push, h.allocate.flushed_push]
    rfl
  sublists := h.sublists
  fresh p hp := by
    rcases List.mem_append.1 hp with hp | hp
    · exact h.allocate.fresh p hp
    · rw [List.mem_singleton.1 hp]
      exact Nat.lt_add_of_pos_right (by decide)
  freshSource p hp := by
    rcases List.mem_append.1 hp with hp | hp
    · exact h.allocate.freshSource p hp
    · rw [List.mem_singleton.1 hp]
      exact Nat.lt_succ_self _
  nodup := by
    refine List.nodup_append.2 ⟨h.nodup, List.nodup_singleton _, fun a ha b hb he => ?_⟩
    have hlt := h.freshSource a ha
    rw [he, List.mem_singleton.1 hb] at hlt
    exact absurd hlt (Nat.not_lt.2 (Nat.le_succ _))
  bounded := h.allocate.bounded
  injective := h.injective
  listed id source hid :=
    (h.listed id source hid).mono (fun _ hp => List.mem_append_left _ hp)
      (fun _ hp => List.mem_append_left _ hp) rfl rfl

/-- **A successful call** gives the next id to a new source with the defaults of its constructor. -/
theorem Ready.addSource_ok (h : Ready cfg r rt) {p : SourceParams}
    (hp : cfg.sourceError p.propertiesFile = none) (hc : ¬ (cfg.kind = .nfcHoa ∧ 29 ≤ cfg.order)) :
    ∃ r' rt', r.addSource cfg p = (r', .ok (r.highestId + 1)) ∧ Ready cfg r' rt' ∧
      r'.sourceMap = r.sourceMap.insert (r.highestId + 1) (r.nextPtr + 1) ∧
      r'.highestId = r.highestId + 1 ∧
      rt'.data = (fun q => if q = r.nextPtr + 1 then .new else rt.data q) ∧ rt'.state = rt.state ∧
      rt'.sourceList = rt.sourceList ++ [r.nextPtr + 1] := by
  obtain ⟨object, hconnect, hobj⟩ := connect_ok (r.nextPtr + 1) r.nextPtr hc
  have hnew := h.created
  obtain ⟨rt', hexec, hlen, hin, hsrc, hdata, hstate, hlisted, hkeep⟩ :=
    execute_connect (r.created rt) hobj rfl h.sublists
      (List.mem_append_right _ List.mem_cons_self) (List.mem_append_right _ List.mem_cons_self)
  have hold : ∀ {id source}, r.sourceMap.find id = some source → source ≠ r.nextPtr + 1 := by
    intro id source hid he
    have hlt := (h.bounded id source hid).1
    rw [he] at hlt
    exact absurd hlt (Nat.not_lt.2 (Nat.le_succ _))
  refine ⟨_, rt', by simp only [Renderer.addSource, hp, hconnect]; rfl, ?_, rfl, rfl, hdata, hstate,
    hsrc⟩
  refine ⟨?_, hlen.trans h.sublists, fun q hq => hnew.fresh q (hin ▸ hq),
    fun q hq => hnew.freshSource q (hsrc ▸ hq), hsrc ▸ hnew.nodup, ?_, ?_, ?_⟩
  · exact (hnew.flushed_push _).trans hexec
  · intro id source hid
    simp only [OrdMap.find_insert] at hid
    split at hid
    · rename_i he
      cases hid
      exact ⟨Nat.lt_succ_self _, he ▸ Nat.succ_pos _, he ▸ Nat.le_refl _⟩
    · exact h.allocate.bounded id source hid
  · intro id id' source hid hid'
    simp only [OrdMap.find_insert] at hid hid'
    split at hid <;> split at hid'
    · rename_i he he'
      exact he.trans he'.symm
    · cases hid
      exact absurd rfl (hold hid')
    · cases hid'
      exact absurd rfl (hold hid)
    · exact h.injective id id' source hid hid'
  · intro id source hid
    simp only [OrdMap.find_insert] at hid
    split at hid
    · cases hid
      simp only [if_true]
      exact hlisted
    · simp only [if_neg (hold hid)]
      exact hkeep _ _ (hnew.listed id source hid)

/-- **A call whose source constructor throws** takes the input back. -/
theorem Ready.addSource_sourceError (h : Ready cfg r rt) {p : SourceParams} {e : String}
    (hp : cfg.sourceError p.propertiesFile = some e) :
    ∃ r', r.addSource cfg p = (r', .error e) ∧ Ready cfg r' rt ∧ r'.sourceMap = r.sourceMap ∧
      r'.highestId = r.highestId + 1 := by
  refine ⟨(r.allocate.push [.addInput r.nextPtr]).push [.remInput r.nextPtr],
    by simp only [Renderer.addSource, hp]; rfl, ?_, rfl, rfl⟩
  have hfresh : r.nextPtr ∉ rt.inputList := fun hm => absurd (h.fresh _ hm) (Nat.lt_irrefl _)
  refine ⟨?_, h.sublists, h.allocate.fresh, h.allocate.freshSource, h.nodup, h.allocate.bounded,
    h.injective, h.listed⟩
  rw [Renderer.flushed_push, Renderer.flushed_push]
  show Except.bind (Except.bind r.flushed _) _ = _
  rw [h.flushed]
  simp only [Except.bind, executeAll, Command.execute, bind, remExecute, List.mem_append,
    List.mem_singleton, or_true, if_true, pure, Except.pure, List.erase_append_right _ hfresh,
    List.erase_cons_head, List.append_nil]

/-- **A call whose `connect()` throws** leaves the input and the source in the lists. -/
theorem Ready.addSource_connectError (h : Ready cfg r rt) {p : SourceParams}
    (hp : cfg.sourceError p.propertiesFile = none) (hc : cfg.kind = .nfcHoa ∧ 29 ≤ cfg.order) :
    ∃ r' e, r.addSource cfg p = (r', .error e) ∧ Ready cfg r' (r.created rt) ∧
      r'.sourceMap = r.sourceMap ∧ r'.highestId = r.highestId + 1 := by
  obtain ⟨e, he⟩ := connect_error (r.nextPtr + 1) r.nextPtr hc
  exact ⟨_, e, by simp only [Renderer.addSource, hp, he]; rfl, h.created, rfl, rfl⟩

/-! ## Runs -/

theorem Ready.addSource (h : Ready cfg r rt) (p : SourceParams) :
    ∃ rt', Ready cfg (r.addSource cfg p).1 rt' := by
  cases hp : cfg.sourceError p.propertiesFile with
  | some e =>
    obtain ⟨r', he, h', -⟩ := h.addSource_sourceError hp
    exact ⟨rt, by rw [he]; exact h'⟩
  | none =>
    by_cases hc : cfg.kind = .nfcHoa ∧ 29 ≤ cfg.order
    · obtain ⟨r', e, he, h', -⟩ := h.addSource_connectError hp hc
      exact ⟨_, by rw [he]; exact h'⟩
    · obtain ⟨r', rt', he, h', -⟩ := h.addSource_ok hp hc
      exact ⟨rt', by rw [he]; exact h'⟩

theorem Ready.step (h : Ready cfg r rt) {op : Op F} {r' : Renderer F}
    (hstep : r.step cfg op = some r') : ∃ rt', Ready cfg r' rt' := by
  cases op with
  | addSource p =>
    cases hstep
    exact h.addSource p
  | update u =>
    simp only [Renderer.step] at hstep
    cases hu : r.handle cfg u with
    | error f => rw [hu] at hstep; cases hstep
    | ok r₁ =>
      rw [hu] at hstep
      cases hstep
      exact h.handle hu
  | execute =>
    simp only [Renderer.step] at hstep
    split at hstep
    · cases hstep
    · rename_i c cs hp
      obtain ⟨rt₁, hc, h₁⟩ := h.execute hp
      simp only [hc, Except.map, Except.toOption] at hstep
      cases hstep
      exact ⟨rt, h₁⟩

theorem ready_new (cfg : RendererConfig) : Ready cfg (new cfg : Renderer F) (new cfg).rt where
  flushed := rfl
  sublists := List.length_replicate
  fresh _ h := by cases h
  freshSource _ h := by cases h
  nodup := .nil
  bounded _ _ h := by cases h
  injective _ _ _ h := by cases h
  listed _ _ h := by cases h

/-- **In every run** the pending commands can be executed. -/
theorem ready_of_run {ops : List (Op F)} (hrun : run (step cfg) (new cfg) ops = some r) :
    ∃ rt, Ready cfg r rt := by
  have hreach := Reach.of_run (C := fun _ _ => True) hrun fun _ _ _ => trivial
  exact hreach.inv (fun r => ∃ rt, Ready cfg r rt) ⟨_, ready_new cfg⟩
    fun _ _ _ ⟨_, h⟩ _ hstep => h.step hstep

/-! ## Failing calls -/

/-- The realtime lists and the source map of `r'`, with all commands executed, are those of `r`. -/
def SameLists (r r' : Renderer F) : Prop :=
  r'.sourceMap = r.sourceMap ∧ ∃ rt rt', r.flushed = .ok rt ∧ r'.flushed = .ok rt' ∧
    rt'.sourceList = rt.sourceList ∧ rt'.inputList = rt.inputList ∧ rt'.sublists = rt.sublists ∧
    rt'.modePairList = rt.modePairList

/-- **A failing `add_source` leaves no trace** in any reachable renderer if and only if it is not
the `connect()` of NFC-HOA with 58 or more loudspeakers that throws. -/
theorem failed_addSource_noTrace_iff {ops : List (Op F)} {p : SourceParams}
    (hrun : run (step cfg) (new cfg) ops = some r) (hfail : ∃ e, (r.addSource cfg p).2 = .error e) :
    SameLists r (r.addSource cfg p).1 ↔
      ¬ (cfg.sourceError p.propertiesFile = none ∧ cfg.kind = .nfcHoa ∧ 58 ≤ cfg.outputs) := by
  obtain ⟨rt, h⟩ := ready_of_run hrun
  have horder : 29 ≤ cfg.order ↔ 58 ≤ cfg.outputs := by
    unfold RendererConfig.order
    omega
  rw [← horder]
  cases hp : cfg.sourceError p.propertiesFile with
  | some e =>
    obtain ⟨r', he, h', hmap, -⟩ := h.addSource_sourceError hp
    rw [he]
    refine iff_of_true ⟨hmap, rt, rt, h.flushed, h'.flushed, rfl, rfl, rfl, rfl⟩ ?_
    rintro ⟨hn, -⟩
    cases hn
  | none =>
    by_cases hc : cfg.kind = .nfcHoa ∧ 29 ≤ cfg.order
    · obtain ⟨r', e, he, h', hmap, -⟩ := h.addSource_connectError hp hc
      rw [he]
      refine iff_of_false ?_ (not_not.2 ⟨rfl, hc⟩)
      rintro ⟨-, rt₁, rt₂, hf, hf', hsrc, -⟩
      rw [h.flushed] at hf
      rw [h'.flushed] at hf'
      cases hf
      cases hf'
      simp [created] at hsrc
    · obtain ⟨r', rt', he, -⟩ := h.addSource_ok hp hc
      rw [he] at hfail
      obtain ⟨e, hfail⟩ := hfail
      cases hfail

theorem failed_addSource_noTrace_iff_brs :
    let cfg : RendererConfig := ⟨.brs, 2, fun file => if file = "" then some "" else none⟩
    SameLists (new cfg : Renderer ℤ) ((new cfg : Renderer ℤ).addSource cfg ⟨"", ""⟩).1 ↔
      ¬ (cfg.sourceError "" = none ∧ cfg.kind = .nfcHoa ∧ 58 ≤ cfg.outputs) :=
  failed_addSource_noTrace_iff (run_nil (s := new _)) ⟨"", rfl⟩

/-- NFC-HOA with 58 loudspeakers: the source stays in the source list. -/
theorem nfcHoa_leaves_source :
    ¬ ∀ (cfg : RendererConfig) (ops : List (Op ℤ)) (r : Renderer ℤ) (p : SourceParams),
      run (step cfg) (new cfg) ops = some r → (∃ e, (r.addSource cfg p).2 = .error e) →
        SameLists r (r.addSource cfg p).1 := by
  intro h
  let cfg : RendererConfig := ⟨.nfcHoa, 58, fun _ => none⟩
  have herror : ((new cfg : Renderer ℤ).addSource cfg ⟨"", ""⟩).2 =
      .error "HoaCoefficients: Order 29 is not supported!" := by decide
  have hlist : ((new cfg : Renderer ℤ).addSource cfg ⟨"", ""⟩).1.flushed.map (·.sourceList) =
      .ok [1] := by decide
  obtain ⟨-, rt, rt', hf, hf', hsrc, -⟩ := h cfg [] (new cfg) ⟨"", ""⟩ rfl ⟨_, herror⟩
  cases hf
  rw [hf', Except.map, hsrc] at hlist
  cases hlist

end Renderer

end Ssr
