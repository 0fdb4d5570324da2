import Ssr.Renderer.RendererBase
import Mathlib.Data.List.Forall2
import Mathlib.Data.List.Nodup

/-!
# Executing the pending commands

`Ready cfg r rt`: all pending commands of `r` can be executed and lead to `rt`, and every source in
the map is fully connected there. The lemmas below give each operation of a renderer in these terms:
`Ready.setSource`, `Ready.setState`, `Ready.remSource` and `Ready.remAllSources` never make a
command throw.
-/

set_option autoImplicit false

namespace Ssr

open Lib

variable {F : Type}

/-! ## Lists -/

theorem executeAll_append (rt : RtState F) (cs ds : List (Command F)) :
    executeAll rt (cs ++ ds) = (executeAll rt cs).bind fun rt' => executeAll rt' ds := by
  induction cs generalizing rt with
  | nil => rfl
  | cons c cs ih =>
    simp only [List.cons_append, executeAll, bind]
    cases c.execute rt with
    | error e => rfl
    | ok rt' => exact ih rt'

theorem executeAll_cons_ok {rt rt' : RtState F} {c : Command F} {cs : List (Command F)}
    (h : c.execute rt = .ok rt') : executeAll rt (c :: cs) = executeAll rt' cs := by
  simp only [executeAll, h, bind, Except.bind]

section
variable {α : Type}

/-- Every element of the first list is in the member list at its place in the second. -/
abbrev Connected (es : List α) (lists : List (List α)) : Prop := List.Forall₂ (· ∈ ·) es lists

theorem distributeList_ok {source : List α} {target : List (List α)}
    (h : source.length = target.length) :
    distributeList source target =
      .ok (List.zipWith (fun x member => member ++ [x]) source target) := by
  rw [distributeList, if_neg (not_not.2 h)]

theorem connected_distribute :
    ∀ {source : List α} {target : List (List α)}, source.length = target.length →
      Connected source (List.zipWith (fun x member => member ++ [x]) source target)
  | [], [], _ => .nil
  | x :: source, member :: target, h =>
    .cons (by simp) (connected_distribute (Nat.succ.inj h))

theorem Connected.distribute {es : List α} {target : List (List α)} (h : Connected es target) :
    ∀ {source : List α}, source.length = target.length →
      Connected es (List.zipWith (fun x member => member ++ [x]) source target) := by
  induction h with
  | nil =>
    intro source _
    cases source <;> exact .nil
  | cons hx _ ih =>
    intro source hlen
    cases source with
    | nil => cases hlen
    | cons y source => exact .cons (List.mem_append_left [y] hx) (ih (Nat.succ.inj hlen))

variable [DecidableEq α]

theorem remExecute_ok :
    ∀ {delinquents list : List α}, delinquents.Nodup → (∀ x ∈ delinquents, x ∈ list) →
      ∃ list', remExecute list delinquents = .ok list' ∧ (∀ x ∈ list', x ∈ list) ∧
        ∀ x ∈ list, x ∉ delinquents → x ∈ list'
  | [], list, _, _ => ⟨list, rfl, fun _ hx => hx, fun _ hx _ => hx⟩
  | i :: delinquents, list, hn, hmem => by
    obtain ⟨hi, hn⟩ := List.nodup_cons.1 hn
    have hrest : ∀ x ∈ delinquents, x ∈ list.erase i := fun x hx =>
      (List.mem_erase_of_ne (ne_of_mem_of_not_mem hx hi)).2 (hmem x (List.mem_cons_of_mem i hx))
    obtain ⟨list', hr, hsub, hkeep⟩ := remExecute_ok hn hrest
    refine ⟨list', ?_, fun x hx => List.mem_of_mem_erase (hsub x hx), fun x hx hxd => ?_⟩
    · rw [remExecute, if_pos (hmem i List.mem_cons_self), hr]
    · have hne : x ≠ i := fun he => hxd (he ▸ List.mem_cons_self)
      exact hkeep x ((List.mem_erase_of_ne hne).2 hx) fun hd => hxd (List.mem_cons_of_mem i hd)

theorem undistributeLoop_ok {source : List α} {target : List (List α)}
    (h : Connected source target) :
    undistributeLoop source target =
      .ok (List.zipWith (fun x member => member.erase x) source target) := by
  induction h with
  | nil => rfl
  | cons hx _ ih =>
    rw [undistributeLoop, if_pos hx, ih]
    rfl

theorem undistributeList_ok {source : List α} {target : List (List α)}
    (h : Connected source target) :
    undistributeList source target =
      .ok (List.zipWith (fun x member => member.erase x) source target) := by
  rw [undistributeList, if_neg (not_not.2 h.length_eq), undistributeLoop_ok h]

theorem Connected.undistribute {es : List α} {target : List (List α)} (h : Connected es target) :
    ∀ {source : List α}, source.length = target.length → (∀ x ∈ es, x ∉ source) →
      Connected es (List.zipWith (fun x member => member.erase x) source target) := by
  induction h with
  | nil =>
    intro source _ _
    cases source <;> exact .nil
  | @cons x member es target hx _ ih =>
    intro source hlen hne
    cases source with
    | nil => cases hlen
    | cons y source =>
      have hxy : x ≠ y := fun he => hne x List.mem_cons_self (he ▸ List.mem_cons_self)
      exact .cons ((List.mem_erase_of_ne hxy).2 hx) (ih (Nat.succ.inj hlen) fun z hz hs =>
        hne z (List.mem_cons_of_mem x hz) (List.mem_cons_of_mem y hs))

end

/-! ## Readiness -/

namespace Renderer

/-- The source `source` is in all the lists of `rt` that it will be removed from. -/
structure Listed (cfg : RendererConfig) (object : SourceObject) (source : Ptr) (rt : RtState F) :
    Prop where
  input : object.input + 1 = source
  inputList : object.input ∈ rt.inputList
  sourceList : source ∈ rt.sourceList
  own : ∀ es, object.elements = some es → ∀ x ∈ es, x.source = source
  connected : ∀ es, object.elements = some es → Connected es rt.sublists
  nodup : object.modePairs.Nodup
  ownPairs : ∀ p ∈ object.modePairs, p.1 = source
  modePairs : cfg.kind = .nfcHoa → ∀ p ∈ object.modePairs, p ∈ rt.modePairList

structure Ready (cfg : RendererConfig) (r : Renderer F) (rt : RtState F) : Prop where
  flushed : r.flushed = .ok rt
  sublists : rt.sublists.length = cfg.sublists
  fresh : ∀ p ∈ rt.inputList, p < r.nextPtr
  freshSource : ∀ p ∈ rt.sourceList, p < r.nextPtr
  nodup : rt.sourceList.Nodup
  bounded : ∀ id source, r.sourceMap.find id = some source →
    source < r.nextPtr ∧ 0 < id ∧ id ≤ r.highestId
  injective : ∀ id id' source, r.sourceMap.find id = some source →
    r.sourceMap.find id' = some source → id = id'
  listed : ∀ id source, r.sourceMap.find id = some source →
    Listed cfg (r.objects source) source rt

variable {cfg : RendererConfig} {r : Renderer F} {rt rt' : RtState F}

theorem flushed_push (r : Renderer F) (cs : List (Command F)) :
    (r.push cs).flushed = r.flushed.bind fun rt => executeAll rt cs := by
  unfold flushed push
  exact executeAll_append r.rt r.pending cs

theorem Ready.flushed_push (h : Ready cfg r rt) (cs : List (Command F)) :
    (r.push cs).flushed = executeAll rt cs := by
  rw [Renderer.flushed_push, h.flushed]
  rfl

/-- Commands that keep the lists keep the readiness. -/
theorem Ready.push (h : Ready cfg r rt) {cs : List (Command F)} (hcs : executeAll rt cs = .ok rt')
    (hsub : rt'.sublists = rt.sublists) (hin : rt'.inputList = rt.inputList)
    (hsrc : rt'.sourceList = rt.sourceList) (hpairs : rt'.modePairList = rt.modePairList) :
    Ready cfg (r.push cs) rt' where
  flushed := by rw [h.flushed_push, hcs]
  sublists := by rw [hsub, h.sublists]
  fresh := hin ▸ h.fresh
  freshSource := hsrc ▸ h.freshSource
  nodup := hsrc ▸ h.nodup
  bounded := h.bounded
  injective := h.injective
  listed id source hid := by
    have hl := h.listed id source hid
    exact ⟨hl.input, hin ▸ hl.inputList, hsrc ▸ hl.sourceList, hl.own, hsub ▸ hl.connected, hl.nodup,
      hl.ownPairs, hpairs ▸ hl.modePairs⟩

/-- The realtime thread executes the oldest command: what is left leads to the same state. -/
theorem flushed_execute {c : Command F} {cs : List (Command F)} (hp : r.pending = c :: cs)
    (hc : c.execute r.rt = .ok rt') : { r with pending := cs, rt := rt' }.flushed = r.flushed := by
  unfold flushed
  rw [hp, executeAll_cons_ok hc]

theorem Ready.setState (h : Ready cfg r rt) (value : StateValue F) :
    Ready cfg (r.setState value) { rt with state := value.assign rt.state } :=
  h.push rfl rfl rfl rfl rfl

theorem Ready.setSource (h : Ready cfg r rt) {id : ℕ} {source : Ptr}
    (hid : r.sourceMap.find id = some source) (value : SourceValue F) :
    Ready cfg (r.setSource id value) { rt with
      data := fun p => if p = source then value.assign (rt.data p) else rt.data p } := by
  unfold Renderer.setSource getSource
  rw [hid]
  exact h.push rfl rfl rfl rfl rfl

theorem setSource_of_none {id : ℕ} (hid : r.sourceMap.find id = none) (value : SourceValue F) :
    r.setSource id value = r := by
  unfold Renderer.setSource getSource
  rw [hid]

/-! ## Removing sources -/

theorem execute_remFromSublist {object : SourceObject} {source : Ptr}
    (h : Listed cfg object source rt) :
    ∃ sublists, executeAll rt (object.elements.toList.map .remFromSublist) =
        .ok { rt with sublists } ∧ sublists.length = rt.sublists.length ∧
      ∀ es, (∀ x ∈ es, x.source ≠ source) → Connected es rt.sublists → Connected es sublists := by
  cases hes : object.elements with
  | none => exact ⟨rt.sublists, rfl, rfl, fun _ _ hc => hc⟩
  | some es =>
    have hconn := h.connected es hes
    refine ⟨List.zipWith (fun x member => member.erase x) es rt.sublists, ?_, ?_, ?_⟩
    · simp only [Option.toList_some, List.map_cons, List.map_nil, executeAll, Command.execute,
        undistributeList_ok hconn]
      rfl
    · rw [List.length_zipWith, hconn.length_eq, Nat.min_self]
    · intro es' hne hc
      exact hc.undistribute hconn.length_eq fun x hx hxs => hne x hx (h.own es hes x hxs)

theorem execute_remModePairs (rt : RtState F) {object : SourceObject} {source : Ptr}
    (hnodup : object.modePairs.Nodup) (hown : ∀ p ∈ object.modePairs, p.1 = source)
    (hmem : cfg.kind = .nfcHoa → ∀ p ∈ object.modePairs, p ∈ rt.modePairList) :
    ∃ modePairList, executeAll rt
        (if cfg.kind = .nfcHoa then [.remModePairs object.modePairs] else []) =
        .ok { rt with modePairList } ∧
      ∀ p ∈ rt.modePairList, p.1 ≠ source → p ∈ modePairList := by
  by_cases hk : cfg.kind = .nfcHoa
  · obtain ⟨list, hrem, -, hkeep⟩ := remExecute_ok hnodup (hmem hk)
    refine ⟨list, ?_, fun p hp hne => hkeep p hp fun hm => hne (hown p hm)⟩
    simp only [if_pos hk, executeAll, Command.execute, hrem]
    rfl
  · refine ⟨rt.modePairList, ?_, fun p hp _ => hp⟩
    rw [if_neg hk]
    rfl

theorem execute_remSource (rt : RtState F) {input source : Ptr} (hs : source ∈ rt.sourceList)
    (hi : input ∈ rt.inputList) :
    executeAll rt [.remSource source, .remInput input] =
      .ok { rt with
        sourceList := rt.sourceList.erase source
        inputList := rt.inputList.erase input } := by
  simp only [executeAll, Command.execute, remExecute, if_pos hs, if_pos hi, bind, Except.bind, pure,
    Except.pure]

/-- A source that is listed can be disconnected and removed. -/
theorem Listed.disconnect {object : SourceObject} {source : Ptr} (h : Listed cfg object source rt) :
    ∃ rt', executeAll rt (cfg.disconnectCommands object ++
        [.remSource source, .remInput object.input]) = .ok rt' ∧
      rt'.data = rt.data ∧ rt'.state = rt.state ∧ rt'.sublists.length = rt.sublists.length ∧
      rt'.inputList = rt.inputList.erase object.input ∧
      rt'.sourceList = rt.sourceList.erase source ∧ ∀ object' source', Listed cfg object' source' rt →
        source' ≠ source → Listed cfg object' source' rt' := by
  obtain ⟨sublists, hsub, hlen, hconn⟩ := execute_remFromSublist h
  obtain ⟨modePairList, hpairs, hkeep⟩ := execute_remModePairs { rt with sublists }
    h.nodup h.ownPairs h.modePairs
  have hrem := execute_remSource { rt with sublists, modePairList } h.sourceList h.inputList
  refine ⟨{ rt with
      sublists
      modePairList
      sourceList := rt.sourceList.erase source
      inputList := rt.inputList.erase object.input }, ?_, rfl, rfl, hlen, rfl, rfl, ?_⟩
  · rw [RendererConfig.disconnectCommands, executeAll_append, executeAll_append, hsub]
    simp only [Except.bind]
    rw [hpairs]
    exact hrem
  · intro object' source' h' hne
    have hne' : object'.input ≠ object.input := by
      intro he
      exact hne (by rw [← h'.input, ← h.input, he])
    refine ⟨h'.input, (List.mem_erase_of_ne hne').2 h'.inputList,
      (List.mem_erase_of_ne hne).2 h'.sourceList, h'.own, ?_, h'.nodup, h'.ownPairs, ?_⟩
    · intro es hes
      exact hconn es (fun x hx => by rw [h'.own es hes x hx]; exact hne) (h'.connected es hes)
    · intro hk p hp
      exact hkeep p (h'.modePairs hk p hp) (by rw [h'.ownPairs p hp]; exact hne)

/-- The map entry that `rem_source` looks for. -/
theorem find_delinquent (h : Ready cfg r rt) {id : ℕ} {source : Ptr}
    (hid : r.sourceMap.find id = some source) :
    r.sourceMap.entries.find? (·.2 = source) = some (id, source) := by
  have hmem := OrdMap.mem_entries_iff.2 hid
  obtain ⟨e, he⟩ : ∃ e, r.sourceMap.entries.find? (·.2 = source) = some e :=
    Option.isSome_iff_exists.1 (List.find?_isSome.2 ⟨_, hmem, by simp⟩)
  have hsource : e.2 = source := by simpa using List.find?_some he
  have hfind := OrdMap.mem_entries_iff.1 (List.mem_of_find?_eq_some he)
  rw [hsource] at hfind
  rw [he, ← h.injective e.1 id source hfind hid, ← hsource]

/-- **Removing an existing source** removes its map entry and never makes a command throw. -/
theorem Ready.remSource (h : Ready cfg r rt) {id : ℕ} {source : Ptr}
    (hid : r.sourceMap.find id = some source) :
    ∃ r' rt', r.remSource cfg (some source) = .ok r' ∧ Ready cfg r' rt' ∧
      r'.sourceMap = r.sourceMap.erase id ∧ r'.highestId = r.highestId ∧
      rt'.sourceList = rt.sourceList.erase source ∧ rt'.data = rt.data ∧ rt'.state = rt.state := by
  have hl := h.listed id source hid
  obtain ⟨rt', hexec, hdata, hstate, hlen, hin, hsrc, hkeep⟩ := hl.disconnect
  simp only [Renderer.remSource, find_delinquent h hid]
  refine ⟨_, rt', rfl, ?_, rfl, rfl, hsrc, hdata, hstate⟩
  have hfind : ∀ id' source', (r.sourceMap.erase id).find id' = some source' →
      r.sourceMap.find id' = some source' ∧ source' ≠ source := by
    intro id' source' hf
    rw [OrdMap.find_erase] at hf
    split at hf
    · cases hf
    · rename_i hne
      refine ⟨hf, ?_⟩
      rintro rfl
      exact hne (h.injective id' id source' hf hid)
  refine ⟨?_, by rw [hlen, h.sublists], fun p hp => h.fresh p ?_, fun p hp => h.freshSource p ?_,
    hsrc ▸ h.nodup.erase source, ?_, ?_, ?_⟩
  · rw [Renderer.flushed_push]
    show r.flushed.bind _ = _
    rw [h.flushed]
    exact hexec
  · exact List.mem_of_mem_erase (hin ▸ hp)
  · exact List.mem_of_mem_erase (hsrc ▸ hp)
  · exact fun id' source' hf => h.bounded id' source' (hfind id' source' hf).1
  · exact fun id' id'' source' hf hf' =>
      h.injective id' id'' source' (hfind id' source' hf).1 (hfind id'' source' hf').1
  · intro id' source' hf
    obtain ⟨hf, hne⟩ := hfind id' source' hf
    exact hkeep _ _ (h.listed id' source' hf) hne

/-- A removal that does not fault is one of an existing source. -/
theorem Ready.remSource_of_ok (h : Ready cfg r rt) {source : Ptr} {r' : Renderer F}
    (hr : r.remSource cfg (some source) = .ok r') :
    ∃ id rt', r.sourceMap.find id = some source ∧ Ready cfg r' rt' ∧
      r'.sourceMap = r.sourceMap.erase id ∧ rt'.sourceList = rt.sourceList.erase source := by
  obtain ⟨id, hid⟩ : ∃ id, r.sourceMap.find id = some source := by
    simp only [Renderer.remSource] at hr
    split at hr
    · cases hr
    · rename_i entry hentry
      have hsource : entry.2 = source := by simpa using List.find?_some hentry
      have hfind := OrdMap.mem_entries_iff.1 (List.mem_of_find?_eq_some hentry)
      exact ⟨entry.1, hsource ▸ hfind⟩
  obtain ⟨r₁, rt₁, hrem, hready₁, hmap, -, hlist, -⟩ := h.remSource hid
  obtain rfl : r₁ = r' := Except.ok.inj (hrem.symm.trans hr)
  exact ⟨id, rt₁, hid, hready₁, hmap, hlist⟩

theorem Ready.remAllLoop {n : ℕ} : ∀ {r : Renderer F} {rt : RtState F}, Ready cfg r rt →
    r.sourceMap.entries.length = n →
    ∃ r' rt', r.remAllLoop cfg n = .ok r' ∧ Ready cfg r' rt' ∧ r'.sourceMap = .empty ∧
      rt'.state = rt.state := by
  induction n with
  | zero =>
    intro r rt h hn
    refine ⟨r, rt, rfl, h, OrdMap.ext_find fun k => ?_, rfl⟩
    rw [OrdMap.find, List.length_eq_zero_iff.1 hn]
    rfl
  | succ n ih =>
    intro r rt h hn
    obtain ⟨e, es, he⟩ := List.exists_cons_of_length_eq_add_one hn
    have hid : r.sourceMap.find e.1 = some e.2 :=
      OrdMap.mem_entries_iff.1 (he ▸ List.mem_cons_self)
    obtain ⟨r₁, rt₁, hrem, h₁, hmap, -, -, -, hstate⟩ := h.remSource hid
    have hlen : r₁.sourceMap.entries.length = n := by
      rw [he] at hn
      rw [hmap, OrdMap.entries_erase_head he]
      exact Nat.succ.inj hn
    obtain ⟨r', rt', hloop, h', hempty, hstate'⟩ := ih h₁ hlen
    refine ⟨r', rt', ?_, h', hempty, hstate'.trans hstate⟩
    simp only [Renderer.remAllLoop, he, hrem, bind, Except.bind]
    exact hloop

/-- **Removing all sources** empties the map and resets the ids. -/
theorem Ready.remAllSources (h : Ready cfg r rt) :
    ∃ r' rt', r.remAllSources cfg = .ok r' ∧ Ready cfg r' rt' ∧ r'.sourceMap = .empty ∧
      r'.highestId = 0 ∧ rt'.state = rt.state := by
  obtain ⟨r', rt', hloop, h', hempty, hstate⟩ := h.remAllLoop rfl
  refine ⟨{ r' with highestId := 0 }, rt', ?_, ?_, hempty, rfl, hstate⟩
  · simp only [Renderer.remAllSources, hloop, bind, Except.bind, pure, Except.pure]
  · refine ⟨h'.flushed, h'.sublists, h'.fresh, h'.freshSource, h'.nodup, fun id source hid => ?_,
      h'.injective, h'.listed⟩
    rw [hempty] at hid
    cases hid

/-! ## Updates and execution -/

/-- Every member function of the subscriber that does not fault keeps the readiness. -/
theorem Ready.handle (h : Ready cfg r rt) {u : Update F} {r' : Renderer F}
    (hu : r.handle cfg u = .ok r') : ∃ rt', Ready cfg r' rt' := by
  have hset : ∀ id value, ∃ rt', Ready cfg (r.setSource id value) rt' := by
    intro id value
    cases hid : r.sourceMap.find id with
    | none => exact ⟨rt, by rw [setSource_of_none hid]; exact h⟩
    | some source => exact ⟨_, h.setSource hid value⟩
  cases u with
  | deleteSource id =>
    cases hid : r.sourceMap.find id with
    | none =>
      simp only [Renderer.handle, getSource, hid, Renderer.remSource] at hu
      cases hu
    | some source =>
      obtain ⟨r₁, rt₁, hrem, h₁, -⟩ := h.remSource hid
      simp only [Renderer.handle, getSource, hid, hrem] at hu
      cases hu
      exact ⟨rt₁, h₁⟩
  | deleteAllSources =>
    obtain ⟨r₁, rt₁, hrem, h₁, -⟩ := h.remAllSources
    simp only [Renderer.handle, hrem] at hu
    cases hu
    exact ⟨rt₁, h₁⟩
  | sourcePosition | sourceOrientation | sourceGain | sourceMute | sourceModel =>
    cases hu
    exact hset _ _
  | referencePosition | referenceOrientation | referenceOffsetPosition | referenceOffsetOrientation
  | masterVolume | amplitudeReferenceDistance | processingState =>
    cases hu
    exact ⟨_, h.setState _⟩
  | newSource | sourceName | sourcePropertiesFile | sourcePortName | sourceFileName
  | sourceFileChannel | sourcePositionFixed | sourceFileLength =>
    cases hu
    exact ⟨rt, h⟩

theorem Ready.execute (h : Ready cfg r rt) {c : Command F} {cs : List (Command F)}
    (hp : r.pending = c :: cs) : ∃ rt₁, c.execute r.rt = .ok rt₁ ∧
      Ready cfg { r with pending := cs, rt := rt₁ } rt := by
  have hf := h.flushed
  unfold Renderer.flushed at hf
  rw [hp] at hf
  cases hc : c.execute r.rt with
  | error e =>
    simp only [executeAll, hc, bind, Except.bind] at hf
    cases hf
  | ok rt₁ =>
    exact ⟨rt₁, rfl, (flushed_execute hp hc).trans h.flushed, h.sublists, h.fresh, h.freshSource,
      h.nodup, h.bounded, h.injective, h.listed⟩

end Renderer

end Ssr
