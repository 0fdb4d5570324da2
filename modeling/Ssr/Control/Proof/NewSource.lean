import Ssr.Control.NewSource
import Ssr.Control.Proof.Agree

/-!
# A new source is silent until it is complete

`newSource_silent_iff`: in every interleaving the new source is silent until its last
`set_source_mute` is executed if and only if no block falls between its addition to the source list
and the first `set_source_mute`, or the volume is 0 there. `newSourceCommands_eq` lists the commands
of the call; `Prefix` says which of them have been pushed.
-/

set_option autoImplicit false

namespace Ssr

open Lib

variable {F : Type}

/-! ## The commands of the call -/

/-- The commands that a publish pushes for the source at `source`. -/
def Update.commands (source : Ptr) : Update F → List (Command F)
  | .sourcePosition _ position => [.setSource source (.position position)]
  | .sourceOrientation _ orientation => [.setSource source (.orientation orientation)]
  | .sourceGain _ gain => [.setSource source (.gain gain)]
  | .sourceMute _ mute => [.setSource source (.mute mute)]
  | .sourceModel _ model => [.setSource source (.model model)]
  | _ => []

/-- The update creates the source `id` or sets one of its members. -/
def Update.For (id : ℕ) : Update F → Prop
  | .newSource id' | .sourcePosition id' _ | .sourceOrientation id' _ | .sourceGain id' _
  | .sourceMute id' _ | .sourceName id' _ | .sourcePropertiesFile id' _ | .sourceModel id' _
  | .sourcePortName id' _ | .sourceFileName id' _ | .sourceFileChannel id' _
  | .sourcePositionFixed id' _ | .sourceFileLength id' _ => id' = id
  | _ => False

theorem Renderer.handle_for {cfg : RendererConfig} {r r' : Renderer F} {id : ℕ} {source : Ptr}
    (hid : r.sourceMap.find id = some source) {u : Update F} (hu : u.For id)
    (h : r.handle cfg u = .ok r') : r' = r.push (u.commands source) := by
  have hset : ∀ value : SourceValue F, r.setSource id value = r.push [.setSource source value] := by
    intro value
    unfold Renderer.setSource getSource
    rw [hid]
  have hnil : r = r.push [] := by
    unfold push
    rw [List.append_nil]
  cases u with
  | sourcePosition | sourceOrientation | sourceGain | sourceMute | sourceModel =>
    cases hu
    cases h
    exact hset _
  | newSource | sourceName | sourcePropertiesFile | sourcePortName | sourceFileName
  | sourceFileChannel | sourcePositionFixed | sourceFileLength =>
    cases h
    exact hnil
  | _ => exact hu.elim

variable [FloatOps F]

/-- A successful `add_source` pushes the addition of input and source and what `connect()` pushes.
-/
theorem Renderer.pending_addSource {cfg : RendererConfig} {r : Renderer F} {p : SourceParams}
    (hp : ¬ Fails cfg p.propertiesFile) : ∃ object, ∃ r' : Renderer F,
      r.addSource cfg p = (r', .ok (r.highestId + 1)) ∧
      r'.sourceMap.find (r.highestId + 1) = some (r.nextPtr + 1) ∧
      r'.pending = r.pending ++ ([.addInput r.nextPtr, .addSource (r.nextPtr + 1) .new] ++
        cfg.connectCommands object) := by
  obtain ⟨he, hc⟩ := not_or.1 hp
  obtain ⟨object, hconnect, -⟩ := connect_ok (r.nextPtr + 1) r.nextPtr hc
  refine ⟨object, _, by simp only [Renderer.addSource, not_not.1 he, hconnect]; rfl, ?_, ?_⟩
  · simp
  · simp [push]

namespace Controller

variable {cfg : Config F} {c c' : Controller F} {env : Environment F} {a : SourceArgs F}

theorem publishAll_for {id : ℕ} {source : Ptr} {us : List (Update F)} (hus : ∀ u ∈ us, u.For id)
    (hid : c.renderer.sourceMap.find id = some source) (h : publishAll cfg us c = .ok c') :
    c'.renderer = c.renderer.push (us.flatMap (Update.commands source)) := by
  induction us generalizing c with
  | nil =>
    cases h
    unfold Renderer.push
    rw [List.flatMap_nil, List.append_nil]
  | cons u us ih =>
    obtain ⟨c₁, h₁, h⟩ := bind_ok h
    obtain ⟨r, hr, hc₁⟩ := bind_ok h₁
    cases hc₁
    have hpush := Renderer.handle_for hid (hus u List.mem_cons_self) hr
    rw [ih (fun u' hu' => hus u' (List.mem_cons_of_mem u hu')) (by rw [hpush]; exact hid) h, hpush]
    simp only [Renderer.push, List.flatMap_cons, List.append_assoc]

/-- What the call sets after the addition of the source. -/
def dataValues (a : SourceArgs F) : List (SourceValue F) :=
  [.mute true, .gain a.gain, .position a.position, .orientation a.orientation, .model a.model,
    .mute a.muted]

def dataCommands (source : Ptr) (a : SourceArgs F) : List (Command F) :=
  (dataValues a).map (.setSource source)

omit [FloatOps F] in
theorem flatMap_newSourceUpdates {id : ℕ} {source : Ptr} {portName fileName : String}
    {fileLength : ℤ} :
    (newSourceUpdates a id portName fileName fileLength).flatMap (Update.commands source) =
      dataCommands source a := by
  unfold newSourceUpdates
  split <;> rfl

omit [FloatOps F] in
theorem newSourceUpdates_for {id : ℕ} {portName fileName : String} {fileLength : ℤ} :
    ∀ u ∈ newSourceUpdates a id portName fileName fileLength, u.For id := by
  intro u hu
  simp only [newSourceUpdates, List.mem_append, List.mem_cons, List.not_mem_nil, or_false] at hu
  rcases hu with ((rfl | rfl | rfl | rfl | rfl | rfl | rfl | rfl | rfl) | hu) | rfl | rfl | rfl
  case inl.inr =>
    split at hu
    · simp only [List.mem_cons, List.not_mem_nil, or_false] at hu
      rcases hu with rfl | rfl <;> rfl
    · cases hu
  all_goals rfl

theorem addSource_pending {portName fileName : String} {fileLength : ℤ}
    (hp : ¬ Renderer.Fails cfg.renderer a.propertiesFile)
    (h : c.addSource cfg a portName fileName fileLength = .ok c') :
    ∃ object, c'.renderer.pending = c.renderer.pending ++
      ([.addInput c.renderer.nextPtr, .addSource (c.renderer.nextPtr + 1) .new] ++
        cfg.renderer.connectCommands object ++ dataCommands (c.renderer.nextPtr + 1) a) := by
  obtain ⟨object, r, he, hid, hpending⟩ := Renderer.pending_addSource (r := c.renderer)
    (p := { connectTo := portName, propertiesFile := a.propertiesFile }) hp
  unfold Controller.addSource at h
  simp only [he] at h
  refine ⟨object, ?_⟩
  rw [publishAll_for newSourceUpdates_for hid h, flatMap_newSourceUpdates]
  simp only [Renderer.push, hpending, List.append_assoc]

theorem not_fails_of_created {portName fileName : String} {fileLength : ℤ} {rt : RtState F}
    (hr : Renderer.Ready cfg.renderer c.renderer rt)
    (h : c.addSource cfg a portName fileName fileLength = .ok c')
    (hcreated : (c'.renderer.getSource (c.renderer.highestId + 1)).isSome) :
    ¬ Renderer.Fails cfg.renderer a.propertiesFile := by
  intro hp
  obtain ⟨r, rt', e, he, -, -, hview⟩ := hr.view_addSource_fails
    (p := { connectTo := portName, propertiesFile := a.propertiesFile }) hp
  unfold Controller.addSource at h
  simp only [he] at h
  cases h
  have hnone := congrArg (fun v => (v.sources (c.renderer.highestId + 1)).isSome) hview
  simp only [Renderer.view, Option.isSome_map, hr.find_next] at hnone
  rw [Renderer.getSource, hnone] at hcreated
  cases hcreated

/-- **The commands of a call** that creates a source. -/
theorem newSourceCommands_eq {rt : RtState F} (hr : Renderer.Ready cfg.renderer c.renderer rt)
    (h : c.newSource cfg env a = .ok c')
    (hcreated : (c'.renderer.getSource (c.renderer.highestId + 1)).isSome) :
    ∃ object, newSourceCommands cfg env c a =
      [.addInput c.renderer.nextPtr, .addSource (c.renderer.nextPtr + 1) .new] ++
        cfg.renderer.connectCommands object ++ dataCommands (c.renderer.nextPtr + 1) a := by
  have hadd : ∀ (player : List (String × Soundfile)) (portName fileName : String) (fileLength : ℤ),
      { c with audioPlayer := player }.addSource cfg a portName fileName fileLength = .ok c' →
      ∃ object, newSourceCommands cfg env c a =
        [.addInput c.renderer.nextPtr, .addSource (c.renderer.nextPtr + 1) .new] ++
          cfg.renderer.connectCommands object ++ dataCommands (c.renderer.nextPtr + 1) a := by
    intro player portName fileName fileLength ha
    have hfails := not_fails_of_created (c := { c with audioPlayer := player }) hr ha hcreated
    obtain ⟨object, hpending⟩ := addSource_pending hfails ha
    refine ⟨object, ?_⟩
    simp only [newSourceCommands, h, hpending]
    exact List.drop_left
  have hnew := h
  unfold Controller.newSource at hnew
  split at hnew
  · cases hnew
  · split at hnew
    · split at hnew
      · exact hadd _ _ _ _ hnew
      · cases hnew
        rw [Renderer.getSource, hr.find_next] at hcreated
        cases hcreated
    · exact hadd _ _ _ _ hnew

end Controller

/-! ## Execution -/

omit [FloatOps F] in
/-- The commands of `connect()` leave data, state and source list alone. -/
theorem execute_connectCommands {cfg : RendererConfig} {object : SourceObject} {cs : List (Command F)}
    (hcs : ∀ cmd ∈ cs, cmd ∈ cfg.connectCommands object) {rt rt' : RtState F}
    (h : executeAll rt cs = .ok rt') :
    rt'.data = rt.data ∧ rt'.state = rt.state ∧ rt'.sourceList = rt.sourceList := by
  induction cs generalizing rt with
  | nil =>
    cases h
    exact ⟨rfl, rfl, rfl⟩
  | cons cmd cs ih =>
    obtain ⟨rt₁, h₁, h⟩ := bind_ok h
    obtain ⟨hdata, hstate, hlist⟩ := ih (fun cmd' hm => hcs cmd' (List.mem_cons_of_mem cmd hm)) h
    have hcmd := hcs cmd List.mem_cons_self
    simp only [RendererConfig.connectCommands, List.mem_append, List.mem_map] at hcmd
    rcases hcmd with hcmd | ⟨es, -, rfl⟩
    · split at hcmd
      · rw [List.mem_singleton.1 hcmd] at h₁
        cases h₁
        exact ⟨hdata, hstate, hlist⟩
      · cases hcmd
    · obtain ⟨sublists, -, h₁⟩ := bind_ok h₁
      cases h₁
      exact ⟨hdata, hstate, hlist⟩

omit [FloatOps F] in
theorem executeAll_setSource (source : Ptr) (values : List (SourceValue F)) (rt : RtState F) :
    ∃ rt', executeAll rt (values.map (.setSource source)) = .ok rt' ∧
      rt'.data source = values.foldl SourceValue.assign (rt.data source) ∧ rt'.state = rt.state := by
  induction values generalizing rt with
  | nil => exact ⟨rt, rfl, rfl, rfl⟩
  | cons value values ih =>
    obtain ⟨rt', h, hdata, hstate⟩ := ih { rt with
      data := fun p => if p = source then value.assign (rt.data p) else rt.data p }
    exact ⟨rt', h, by simpa using hdata, hstate⟩

/-! ## Blocks -/

/-- The data that the arguments describe. -/
def SourceArgs.data (a : SourceArgs F) : SourceData F :=
  { position := a.position, orientation := a.orientation, gain := a.gain, mute := a.muted,
    model := a.model }

namespace Call

variable {correction : F} {source : Ptr} {a : SourceArgs F}

/-- In a block that runs now, the weighting factor of the source is 0 as long as one of its
`set_source_mute` commands is still to come; afterwards the source has its final data. -/
def Silent (correction : F) (source : Ptr) (a : SourceArgs F) (t : Call F) (action : Action) : Prop :=
  action = .block → ∀ rt, t.renderer.flushed = .ok rt →
    (t.rest.any (Command.isMute source) = true → source ∈ rt.sourceList →
      weightingFactor correction rt source = FloatOps.ofInt 0) ∧
    (t.rest.any (Command.isMute source) = false → rt.data source = a.data)

/-- A block that runs now does not fall between the addition of the source and its first
`set_source_mute`, unless processing is off or the volume is 0. -/
def Covered (correction : F) (source : Ptr) (t : Call F) (action : Action) : Prop :=
  action = .block → t.rest.any (Command.isAddSource source) = false →
    t.rest.countP (Command.isMute source) = 2 → ∀ rt, t.renderer.flushed = .ok rt →
      rt.state.processing = false ∨
        FloatOps.mul (FloatOps.mul (FloatOps.ofInt 1) rt.state.masterVolume) correction =
          FloatOps.ofInt 0

/-- `pre` has been pushed already. -/
def Prefix (commands : List (Command F)) (rt₀ : RtState F) (t : Call F) : Prop :=
  ∃ pre, commands = pre ++ t.rest ∧ t.renderer.flushed = executeAll rt₀ pre

omit [FloatOps F] in
theorem Prefix.step {commands : List (Command F)} {rt₀ : RtState F} {t u : Call F} {action : Action}
    (h : Prefix commands rt₀ t) (hs : t.step action = some u) : Prefix commands rt₀ u := by
  obtain ⟨pre, hpre, hflush⟩ := h
  cases action with
  | push =>
    simp only [Call.step] at hs
    split at hs
    · cases hs
    · rename_i cmd rest hrest
      cases hs
      refine ⟨pre ++ [cmd], by rw [hpre, hrest, List.append_assoc]; rfl, ?_⟩
      rw [Renderer.flushed_push, hflush, executeAll_append]
  | block =>
    simp only [Call.step] at hs
    cases hf : t.renderer.flushed with
    | error e =>
      rw [hf] at hs
      cases hs
    | ok rt =>
      rw [hf] at hs
      cases hs
      exact ⟨pre, hpre, by rw [← hflush, hf]; rfl⟩

/-! ## Where a block can fall -/

section
variable {cfg : RendererConfig} {object : SourceObject} {r : Renderer F} {rt₀ : RtState F} {t : Call F}

/-- The addition of input and source. -/
def additions (r : Renderer F) : List (Command F) :=
  [.addInput r.nextPtr, .addSource (r.nextPtr + 1) .new]

omit [FloatOps F] in
theorem connectCommands_kind {cs : List (Command F)}
    (hcs : ∀ cmd ∈ cs, cmd ∈ cfg.connectCommands object) (p : Ptr) :
    cs.any (Command.isMute p) = false ∧ cs.any (Command.isAddSource p) = false ∧
      cs.countP (Command.isMute p) = 0 := by
  have hkind : ∀ cmd ∈ cs, cmd.isMute p = false ∧ cmd.isAddSource p = false := by
    intro cmd hm
    have hcmd := hcs cmd hm
    simp only [RendererConfig.connectCommands, List.mem_append, List.mem_map] at hcmd
    rcases hcmd with hcmd | ⟨es, -, rfl⟩
    · split at hcmd
      · rw [List.mem_singleton.1 hcmd]
        exact ⟨rfl, rfl⟩
      · cases hcmd
    · exact ⟨rfl, rfl⟩
  refine ⟨List.any_eq_false.2 fun cmd hm => by simp [(hkind cmd hm).1],
    List.any_eq_false.2 fun cmd hm => by simp [(hkind cmd hm).2], List.countP_eq_zero.2 ?_⟩
  exact fun cmd hm => by simp [(hkind cmd hm).1]

omit [FloatOps F] in
theorem dataCommands_any_addSource (p : Ptr) (values : List (SourceValue F)) :
    (values.map (Command.setSource source)).any (Command.isAddSource p) = false := by
  rw [List.any_map]
  exact List.any_eq_false.2 fun _ _ => by simp [Command.isAddSource]

/-- Before the addition of the source it is not listed. -/
theorem before_addition (hr : Renderer.Ready cfg r rt₀) {pre rest more : List (Command F)}
    (hadd : additions r = pre ++ rest) (hrest : rest ≠ []) (ht : t.rest = rest ++ more)
    (hflush : t.renderer.flushed = executeAll rt₀ pre)
    (hmute : t.rest.any (Command.isMute (r.nextPtr + 1)) = true) {action : Action} :
    Silent correction (r.nextPtr + 1) a t action ↔ Covered correction (r.nextPtr + 1) t action := by
  have hlast : t.rest.any (Command.isAddSource (r.nextPtr + 1)) = true := by
    obtain ⟨rest', cmd, rfl⟩ := List.eq_nil_or_concat rest |>.resolve_left hrest
    have hcmd : cmd = .addSource (r.nextPtr + 1) .new := by
      have := congrArg List.getLast? hadd
      simpa [additions] using this.symm
    rw [ht, hcmd]
    simp [Command.isAddSource]
  refine iff_of_true (fun _ rt hf => ⟨fun _ hmem => ?_, fun hnone => ?_⟩) fun _ hnone => ?_
  · exfalso
    have hlist : rt.sourceList = rt₀.sourceList := by
      rw [hflush] at hf
      have hpre : pre = [] ∨ pre = [.addInput r.nextPtr] := by
        cases pre with
        | nil => exact .inl rfl
        | cons x pre =>
          cases pre with
          | nil => exact .inr (by rw [(List.cons.inj hadd).1])
          | cons y pre =>
            have hlen := congrArg List.length hadd
            simp only [additions, List.length_cons, List.length_nil, List.length_append] at hlen
            exact absurd (List.length_eq_zero_iff.1 (by omega)) hrest
      rcases hpre with rfl | rfl
      · cases hf
        rfl
      · cases hf
        rfl
    exact absurd (hr.freshSource _ (hlist ▸ hmem)) (Nat.not_lt.2 (Nat.le_succ _))
  · rw [hmute] at hnone
    cases hnone
  · rw [hlast] at hnone
    cases hnone

/-- Between the addition of the source and its first `set_source_mute` it is processed with the
defaults of its constructor. -/
theorem within_window (pre rest : List (Command F))
    (hpre : ∀ cmd ∈ pre, cmd ∈ cfg.connectCommands object)
    (hrest : ∀ cmd ∈ rest, cmd ∈ cfg.connectCommands object)
    (ht : t.rest = rest ++ Controller.dataCommands (r.nextPtr + 1) a)
    (hflush : t.renderer.flushed = executeAll rt₀ (additions r ++ pre)) {action : Action} :
    Silent correction (r.nextPtr + 1) a t action ↔ Covered correction (r.nextPtr + 1) t action := by
  obtain ⟨hany, hadd, hcount⟩ := connectCommands_kind hrest (r.nextPtr + 1)
  have hmute : t.rest.any (Command.isMute (r.nextPtr + 1)) = true := by
    rw [ht, List.any_append, hany]
    simp [Controller.dataCommands, Controller.dataValues, Command.isMute]
  have hnoAdd : t.rest.any (Command.isAddSource (r.nextPtr + 1)) = false := by
    rw [ht, List.any_append, hadd, Controller.dataCommands, dataCommands_any_addSource]
    rfl
  have htwo : t.rest.countP (Command.isMute (r.nextPtr + 1)) = 2 := by
    rw [ht, List.countP_append, hcount]
    simp [Controller.dataCommands, Controller.dataValues, Command.isMute]
  have hstate : ∀ rt, t.renderer.flushed = .ok rt →
      r.nextPtr + 1 ∈ rt.sourceList ∧ rt.data (r.nextPtr + 1) = .new := by
    intro rt hf
    rw [hflush, executeAll_append] at hf
    obtain ⟨hdata, -, hlist⟩ := execute_connectCommands hpre hf
    refine ⟨hlist ▸ List.mem_append_right _ List.mem_cons_self, ?_⟩
    rw [hdata]
    exact if_pos rfl
  have hweight : ∀ rt, t.renderer.flushed = .ok rt →
      (weightingFactor correction rt (r.nextPtr + 1) = FloatOps.ofInt 0 ↔
        rt.state.processing = false ∨
          FloatOps.mul (FloatOps.mul (FloatOps.ofInt 1) rt.state.masterVolume) correction =
            FloatOps.ofInt 0) := by
    intro rt hf
    rw [weightingFactor, (hstate rt hf).2]
    cases hp : rt.state.processing <;> simp [SourceData.new]
  constructor
  · exact fun hs ha _ _ rt hf => (hweight rt hf).1 ((hs ha rt hf).1 hmute (hstate rt hf).1)
  · intro hc ha rt hf
    refine ⟨fun _ _ => (hweight rt hf).2 (hc ha hnoAdd htwo rt hf), fun hnone => ?_⟩
    rw [hmute] at hnone
    cases hnone

/-- What is left of `dataValues` after the first `set_source_mute`: a second one comes as long as the
source is mute, afterwards the data is final. -/
theorem dataValues_split {values values' : List (SourceValue F)}
    (hvalues : Controller.dataValues a = values ++ values') (hne : values ≠ []) (p : Ptr) :
    (values'.map (.setSource p)).countP (Command.isMute p) ≤ 1 ∧
      ((values'.map (.setSource p)).any (Command.isMute p) = true →
        (values.foldl SourceValue.assign .new).mute = true) ∧
      ((values'.map (.setSource p)).any (Command.isMute p) = false →
        values.foldl SourceValue.assign .new = a.data) := by
  simp only [Controller.dataValues, List.cons_eq_append_iff, List.nil_eq_append_iff] at hvalues
  rcases hvalues with ⟨rfl, -⟩ | ⟨_, rfl, h⟩
  · exact absurd rfl hne
  · rcases h with ⟨rfl, rfl⟩ | ⟨_, rfl, ⟨rfl, rfl⟩ | ⟨_, rfl, ⟨rfl, rfl⟩ | ⟨_, rfl,
      ⟨rfl, rfl⟩ | ⟨_, rfl, ⟨rfl, rfl⟩ | ⟨_, rfl, rfl, rfl⟩⟩⟩⟩⟩
    all_goals simp [Command.isMute, SourceValue.assign, SourceArgs.data]

/-- After the first `set_source_mute` the source is mute, until its data is final. -/
theorem after_mute {pre : List (Command F)} {values values' : List (SourceValue F)}
    (hpre : ∀ cmd ∈ pre, cmd ∈ cfg.connectCommands object)
    (hvalues : Controller.dataValues a = values ++ values') (hne : values ≠ [])
    (ht : t.rest = values'.map (.setSource (r.nextPtr + 1)))
    (hflush : t.renderer.flushed =
      executeAll rt₀ (additions r ++ pre ++ values.map (.setSource (r.nextPtr + 1))))
    {action : Action} :
    Silent correction (r.nextPtr + 1) a t action ↔ Covered correction (r.nextPtr + 1) t action := by
  have hdata : ∀ rt, t.renderer.flushed = .ok rt →
      rt.data (r.nextPtr + 1) = values.foldl SourceValue.assign .new := by
    intro rt hf
    rw [hflush, executeAll_append, executeAll_append] at hf
    obtain ⟨rt₁, h₁, hf⟩ := bind_ok hf
    obtain ⟨hnew, -, -⟩ := execute_connectCommands hpre h₁
    obtain ⟨rt₂, h₂, hassign, -⟩ := executeAll_setSource (r.nextPtr + 1) values rt₁
    rw [h₂] at hf
    cases hf
    rw [hassign, hnew]
    exact congrArg (values.foldl SourceValue.assign) (if_pos rfl)
  obtain ⟨hcount, hmute, hfinal⟩ := dataValues_split hvalues hne (r.nextPtr + 1)
  rw [← ht] at hcount hmute hfinal
  refine iff_of_true (fun _ rt hf => ⟨fun hany _ => ?_, fun hnone => ?_⟩) fun _ _ htwo => ?_
  · rw [weightingFactor, hdata rt hf, hmute hany, Bool.or_true, if_pos rfl]
  · rw [hdata rt hf, hfinal hnone]
  · exfalso
    omega

/-- **A block is silent** if and only if it is covered, wherever it falls. -/
theorem Prefix.silent_iff (hr : Renderer.Ready cfg r rt₀)
    (h : Prefix (additions r ++ cfg.connectCommands object ++
      Controller.dataCommands (r.nextPtr + 1) a) rt₀ t) {action : Action} :
    Silent correction (r.nextPtr + 1) a t action ↔ Covered correction (r.nextPtr + 1) t action := by
  obtain ⟨pre, hpre, hflush⟩ := h
  rcases List.append_eq_append_iff.1 hpre with ⟨done, rfl, hdone⟩ | ⟨more, hmore, hrest⟩
  · obtain ⟨values, values', hvalues, hv, hv'⟩ := List.map_eq_append_iff.1 hdone
    cases values with
    | nil =>
      cases hv
      refine within_window (cfg.connectCommands object) [] (fun _ hm => hm)
        (fun _ hm => by cases hm) hdone.symm (by rwa [List.map_nil, List.append_nil] at hflush)
    | cons value values =>
      rw [← hv] at hflush
      exact after_mute (fun _ hm => hm) hvalues (List.cons_ne_nil _ _) hv'.symm hflush
  · rcases List.append_eq_append_iff.1 hmore with ⟨done, rfl, hdone⟩ | ⟨rest, hadd, rfl⟩
    · exact within_window _ _ (fun _ hm => hdone ▸ List.mem_append_left _ hm)
        (fun _ hm => hdone ▸ List.mem_append_right _ hm) hrest hflush
    · by_cases hnil : rest = []
      · subst hnil
        rw [List.append_nil] at hadd
        exact within_window [] _ (fun _ hm => by cases hm) (fun _ hm => hm) hrest
          (by rw [hflush, ← hadd, List.append_nil])
      · rw [List.append_assoc] at hrest
        refine before_addition hr hadd hnil hrest hflush ?_
        rw [hrest]
        simp [Controller.dataCommands, Controller.dataValues, Command.isMute]

end

end Call

/-- **A new source is silent until it is complete** in an interleaving of `new_source` with audio
blocks if and only if every block is covered. -/
theorem newSource_silent_iff {cfg : Config F} {env env' : Environment F} {correction : F}
    {c₀ c c' : Controller F} {ops : List (Op F)} {a : SourceArgs F} {actions : List Call.Action}
    (hnew : Controller.new cfg env = some c₀)
    (hrun : run (Controller.step cfg) c₀ ops = some c) (hcall : c.newSource cfg env' a = .ok c')
    (hcreated : (c'.renderer.getSource (c.renderer.highestId + 1)).isSome) :
    AllSteps Call.step (Call.Silent correction (c.renderer.nextPtr + 1) a)
        (Call.start cfg env' c a) actions ↔
      AllSteps Call.step (Call.Covered correction (c.renderer.nextPtr + 1))
        (Call.start cfg env' c a) actions := by
  obtain ⟨v, w, ⟨-, rt₀, hr, -⟩, -⟩ := Controller.linked_of_run hnew hrun
  obtain ⟨object, hcommands⟩ := Controller.newSourceCommands_eq hr hcall hcreated
  have hpushed : ∀ pre u, run Call.step (Call.start cfg env' c a) pre = some u →
      Call.Prefix (Call.additions c.renderer ++ cfg.renderer.connectCommands object ++
        Controller.dataCommands (c.renderer.nextPtr + 1) a) rt₀ u := by
    intro pre u hu
    have hreach := Reach.of_run (C := fun _ _ => True) hu fun _ _ _ => trivial
    refine hreach.inv (Call.Prefix _ rt₀) ?_ fun _ _ _ hp _ hs => hp.step hs
    exact ⟨[], hcommands.symm, hr.flushed⟩
  constructor
  · exact fun h pre action post u hpost hu =>
      ((hpushed pre u hu).silent_iff hr).1 (h pre action post u hpost hu)
  · exact fun h pre action post u hpost hu =>
      ((hpushed pre u hu).silent_iff hr).2 (h pre action post u hpost hu)

/-- A point source without a port. -/
def pointSource : SourceArgs ℤ :=
  { name := "", model := .point, fileOrPortName := "", channel := 0, position := .origin
    positionFixed := false, orientation := .zero, gain := 1, muted := false, propertiesFile := "" }

theorem newSource_silent_iff_point :
    let cfg : Config ℤ := { Controller.soundfileConfig with sceneFileName := "" }
    ∃ c, Controller.new cfg Controller.monoEnvironment = some c ∧
      (AllSteps Call.step (Call.Silent 1 (c.renderer.nextPtr + 1) pointSource)
          (Call.start cfg Controller.monoEnvironment c pointSource) [.push, .push, .block] ↔
        AllSteps Call.step (Call.Covered 1 (c.renderer.nextPtr + 1))
          (Call.start cfg Controller.monoEnvironment c pointSource) [.push, .push, .block]) := by
  intro cfg
  obtain ⟨c, hc⟩ : ∃ c, Controller.new cfg Controller.monoEnvironment = some c := ⟨_, rfl⟩
  obtain ⟨c', hc', hcreated⟩ : ∃ c',
      c.newSource cfg Controller.monoEnvironment pointSource = .ok c' ∧
      (c'.renderer.getSource (c.renderer.highestId + 1)).isSome := by
    cases hc
    exact ⟨_, rfl, rfl⟩
  exact ⟨c, hc, newSource_silent_iff hc run_nil hc' hcreated⟩

/-- A block after the first two commands: the source is processed with gain 1 and is not mute. -/
theorem newSource_not_silent :
    ¬ ∀ (cfg : Config ℤ) (env env' : Environment ℤ) (correction : ℤ) (c₀ c c' : Controller ℤ)
      (ops : List (Op ℤ)) (a : SourceArgs ℤ) (actions : List Call.Action),
      Controller.new cfg env = some c₀ → run (Controller.step cfg) c₀ ops = some c →
      c.newSource cfg env' a = .ok c' →
      (c'.renderer.getSource (c.renderer.highestId + 1)).isSome →
      AllSteps Call.step (Call.Silent correction (c.renderer.nextPtr + 1) a)
        (Call.start cfg env' c a) actions := by
  intro h
  let cfg : Config ℤ := { Controller.soundfileConfig with sceneFileName := "" }
  have hsilent := h cfg Controller.monoEnvironment Controller.monoEnvironment 1 _ _ _
    [.startProcessing] pointSource [.push, .push, .block] rfl rfl rfl rfl
  have hblock := hsilent [.push, .push] .block [] _ rfl rfl rfl _ rfl
  have hweight := hblock.1 (by decide) (by decide)
  change (1 : ℤ) = 0 at hweight
  cases hweight

end Ssr
