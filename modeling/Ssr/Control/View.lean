import Ssr.Renderer.Proof.AddSource

/-!
# What Scene and renderer both know

A `View` holds the values that the Scene and the renderer keep a copy of: the data of each source by
its id, and the state. `View.apply` says what a publish is meant to do with them. The main lemmas
are `Scene.view_handle`, `Renderer.Ready.view_handle` and `Renderer.Ready.view_addSource`: both
copies do that.
-/

set_option autoImplicit false

namespace Ssr

open Lib

variable {F : Type}

@[ext]
structure View (F : Type) where
  sources : ℕ → Option (SourceData F)
  state : RenderState F

namespace View

def setSource (v : View F) (id : ℕ) (value : SourceValue F) : View F :=
  { v with
    sources := fun k => if k = id then (v.sources id).map fun d => value.assign d else v.sources k }

def setState (v : View F) (value : StateValue F) : View F :=
  { v with state := value.assign v.state }

/-- A new source with the defaults, unless there is one with this id. -/
def newSource [FloatOps F] (v : View F) (id : ℕ) : View F :=
  { v with sources := fun k => if k = id then some ((v.sources id).getD .new) else v.sources k }

def deleteSource (v : View F) (id : ℕ) : View F :=
  { v with sources := fun k => if k = id then none else v.sources k }

def apply [FloatOps F] (v : View F) : Update F → View F
  | .newSource id => v.newSource id
  | .deleteSource id => v.deleteSource id
  | .deleteAllSources => { v with sources := fun _ => none }
  | .sourcePosition id position => v.setSource id (.position position)
  | .sourceOrientation id orientation => v.setSource id (.orientation orientation)
  | .sourceGain id gain => v.setSource id (.gain gain)
  | .sourceMute id mute => v.setSource id (.mute mute)
  | .sourceModel id model => v.setSource id (.model model)
  | .referencePosition position => v.setState (.referencePosition position)
  | .referenceOrientation orientation => v.setState (.referenceOrientation orientation)
  | .referenceOffsetPosition position => v.setState (.referenceOffsetPosition position)
  | .referenceOffsetOrientation orientation => v.setState (.referenceOffsetOrientation orientation)
  | .masterVolume volume => v.setState (.masterVolume volume)
  | .amplitudeReferenceDistance distance => v.setState (.amplitudeReferenceDistance distance)
  | .processingState state => v.setState (.processing state)
  | .sourceName _ _ | .sourcePropertiesFile _ _ | .sourcePortName _ _ | .sourceFileName _ _
  | .sourceFileChannel _ _ | .sourcePositionFixed _ _ | .sourceFileLength _ _ => v

def applyAll [FloatOps F] (v : View F) (us : List (Update F)) : View F := us.foldl apply v

end View

/-! ## The Scene -/

/-- The values of a source that the renderer also has. -/
def Source.data (source : Source F) : SourceData F :=
  { position := source.position
    orientation := source.orientation
    gain := source.gain
    mute := source.mute
    model := source.model }

def Scene.view (s : Scene F) : View F :=
  { sources := fun id => (s.sourceMap.find id).map Source.data
    state :=
      { referencePosition := s.referencePosition
        referenceOrientation := s.referenceOrientation
        referenceOffsetPosition := s.referenceOffsetPosition
        referenceOffsetOrientation := s.referenceOffsetOrientation
        masterVolume := s.masterVolume
        processing := s.processingState
        amplitudeReferenceDistance := s.amplitudeReferenceDistance } }

theorem Scene.view_setSourceMember (s : Scene F) (id : ℕ) {assign : Source F → Source F}
    {value : SourceData F → SourceData F} (h : ∀ a, (assign a).data = value a.data) :
    (s.setSourceMember id assign).view = { s.view with
      sources := fun k => if k = id then (s.view.sources id).map value else s.view.sources k } := by
  refine View.ext (funext fun k => ?_) rfl
  simp only [Scene.view, Scene.setSourceMember, OrdMap.find_modify]
  split
  · rw [Option.map_map, Option.map_map]
    exact congrArg (Option.map · (s.sourceMap.find id)) (funext h)
  · rfl

theorem Scene.view_setSourceMember_same (s : Scene F) (id : ℕ) {assign : Source F → Source F}
    (h : ∀ a, (assign a).data = a.data) : (s.setSourceMember id assign).view = s.view := by
  refine View.ext (funext fun k => ?_) rfl
  simp only [Scene.view, Scene.setSourceMember, OrdMap.find_modify]
  split
  · rename_i hk
    rw [Option.map_map, hk]
    exact congrArg (Option.map · (s.sourceMap.find id)) (funext h)
  · rfl

theorem Scene.view_newSource [FloatOps F] (s : Scene F) (id : ℕ) :
    (s.newSource id).view = s.view.newSource id := by
  refine View.ext (funext fun k => ?_) (by unfold Scene.newSource; split <;> rfl)
  simp only [Scene.newSource, View.newSource, Scene.view]
  split
  · rename_i source hid
    rw [hid]
    split
    · rename_i hk
      rw [hk, hid]
      rfl
    · rfl
  · rename_i hid
    simp only [OrdMap.find_insert, hid]
    split <;> rfl

/-- **The Scene** does with its copy what the publish says. -/
theorem Scene.view_handle [FloatOps F] (s : Scene F) (u : Update F) :
    (s.handle u).view = s.view.apply u := by
  cases u with
  | newSource id => exact s.view_newSource id
  | deleteSource id =>
    refine View.ext (funext fun k => ?_) rfl
    simp only [Scene.handle, Scene.deleteSource, Scene.view, OrdMap.find_erase, View.apply,
      View.deleteSource]
    split <;> rfl
  | deleteAllSources => rfl
  | sourcePosition | sourceOrientation | sourceGain | sourceMute | sourceModel =>
    exact s.view_setSourceMember _ fun _ => rfl
  | sourceName | sourcePropertiesFile | sourcePortName | sourceFileName | sourceFileChannel
  | sourcePositionFixed | sourceFileLength =>
    exact s.view_setSourceMember_same _ fun _ => rfl
  | referencePosition | referenceOrientation | referenceOffsetPosition | referenceOffsetOrientation
  | masterVolume | amplitudeReferenceDistance | processingState => rfl

/-! ## The renderer -/

/-- `rt` is the realtime state with all commands executed. -/
def Renderer.view (r : Renderer F) (rt : RtState F) : View F :=
  { sources := fun id => (r.sourceMap.find id).map rt.data
    state := rt.state }

namespace Renderer

variable {cfg : RendererConfig} {r r' : Renderer F} {rt : RtState F}

theorem Ready.view_setSource (h : Ready cfg r rt) (id : ℕ) (value : SourceValue F) :
    ∃ rt', Ready cfg (r.setSource id value) rt' ∧
      (r.setSource id value).view rt' = (r.view rt).setSource id value := by
  cases hid : r.sourceMap.find id with
  | none =>
    rw [setSource_of_none hid]
    refine ⟨rt, h, View.ext (funext fun k => ?_) rfl⟩
    simp only [Renderer.view, View.setSource]
    split
    · rename_i hk
      rw [hk, hid]
      rfl
    · rfl
  | some source =>
    refine ⟨_, h.setSource hid value, View.ext (funext fun k => ?_) ?_⟩
    · simp only [Renderer.setSource, getSource, hid, Renderer.view, View.setSource]
      change (r.sourceMap.find k).map _ = _
      split
      · rename_i hk
        rw [hk, hid]
        simp
      · rename_i hk
        cases hf : r.sourceMap.find k with
        | none => rfl
        | some p =>
          have hp : p ≠ source := fun he => hk (h.injective k id source (he ▸ hf) hid)
          simp [hp]
    · simp only [Renderer.setSource, getSource, hid]
      rfl

theorem Ready.find_next (h : Ready cfg r rt) : r.sourceMap.find (r.highestId + 1) = none := by
  cases hf : r.sourceMap.find (r.highestId + 1) with
  | none => rfl
  | some source => exact absurd (h.bounded _ _ hf).2.2 (Nat.not_succ_le_self _)

theorem Ready.ne_next (h : Ready cfg r rt) {id : ℕ} {source : Ptr}
    (hf : r.sourceMap.find id = some source) : source ≠ r.nextPtr + 1 :=
  fun he => absurd (he ▸ (h.bounded _ _ hf).1) (Nat.not_lt.2 (Nat.le_succ _))

variable [FloatOps F]

/-- **The renderer** does with its copy what the publish says. -/
theorem Ready.view_handle (h : Ready cfg r rt) {u : Update F} (hu : r.handle cfg u = .ok r')
    (hnew : ∀ id, u = .newSource id → (r.sourceMap.find id).isSome) :
    ∃ rt', Ready cfg r' rt' ∧ r'.view rt' = (r.view rt).apply u := by
  cases u with
  | newSource id =>
    cases hu
    refine ⟨rt, h, View.ext (funext fun k => ?_) rfl⟩
    obtain ⟨source, hid⟩ := Option.isSome_iff_exists.1 (hnew id rfl)
    simp only [Renderer.view, View.apply, View.newSource]
    split
    · rename_i hk
      rw [hk, hid]
      rfl
    · rfl
  | deleteSource id =>
    cases hid : r.sourceMap.find id with
    | none =>
      simp only [Renderer.handle, getSource, hid, Renderer.remSource] at hu
      cases hu
    | some source =>
      obtain ⟨r₁, rt₁, hrem, h₁, hmap, -, -, hdata, hstate⟩ := h.remSource hid
      simp only [Renderer.handle, getSource, hid, hrem] at hu
      cases hu
      refine ⟨rt₁, h₁, View.ext (funext fun k => ?_) hstate⟩
      simp only [Renderer.view, hmap, hdata, OrdMap.find_erase, View.apply, View.deleteSource]
      split <;> rfl
  | deleteAllSources =>
    obtain ⟨r₁, rt₁, hrem, h₁, hmap, -, hstate⟩ := h.remAllSources
    simp only [Renderer.handle, hrem] at hu
    cases hu
    refine ⟨rt₁, h₁, View.ext (funext fun k => ?_) hstate⟩
    rw [Renderer.view, hmap]
    rfl
  | sourcePosition | sourceOrientation | sourceGain | sourceMute | sourceModel =>
    cases hu
    exact h.view_setSource _ _
  | referencePosition | referenceOrientation | referenceOffsetPosition | referenceOffsetOrientation
  | masterVolume | amplitudeReferenceDistance | processingState =>
    cases hu
    exact ⟨_, h.setState _, rfl⟩
  | sourceName | sourcePropertiesFile | sourcePortName | sourceFileName | sourceFileChannel
  | sourcePositionFixed | sourceFileLength =>
    cases hu
    exact ⟨rt, h, rfl⟩

/-- `add_source` throws: the source constructor or the connection does. -/
def Fails (cfg : RendererConfig) (propertiesFile : String) : Prop :=
  cfg.sourceError propertiesFile ≠ none ∨ cfg.kind = .nfcHoa ∧ 29 ≤ cfg.order

/-- **A new source** of the renderer has the next id and the defaults. -/
theorem Ready.view_addSource (h : Ready cfg r rt) {p : SourceParams}
    (hp : ¬ Fails cfg p.propertiesFile) :
    ∃ r' rt', r.addSource cfg p = (r', .ok (r.highestId + 1)) ∧ Ready cfg r' rt' ∧
      r'.highestId = r.highestId + 1 ∧ (r'.sourceMap.find (r.highestId + 1)).isSome ∧
      r'.view rt' = (r.view rt).newSource (r.highestId + 1) := by
  obtain ⟨he, hc⟩ := not_or.1 hp
  obtain ⟨r', rt', he, h', hmap, hid, hdata, hstate, -⟩ := h.addSource_ok (not_not.1 he) hc
  refine ⟨r', rt', he, h', hid, by simp [hmap], View.ext (funext fun k => ?_) hstate⟩
  simp only [Renderer.view, View.newSource, hmap, OrdMap.find_insert, hdata, h.find_next]
  split
  · simp
  · cases hf : r.sourceMap.find k with
    | none => rfl
    | some source => simp [h.ne_next hf]

/-- A failing call uses up an id and changes nothing else that is visible. -/
theorem Ready.view_addSource_fails (h : Ready cfg r rt) {p : SourceParams}
    (hp : Fails cfg p.propertiesFile) :
    ∃ r' rt' e, r.addSource cfg p = (r', .error e) ∧ Ready cfg r' rt' ∧
      r'.highestId = r.highestId + 1 ∧ r'.view rt' = r.view rt := by
  cases he : cfg.sourceError p.propertiesFile with
  | some e =>
    obtain ⟨r', he, h', hmap, hid⟩ := h.addSource_sourceError he
    exact ⟨r', rt, e, he, h', hid, by rw [Renderer.view, hmap, Renderer.view]⟩
  | none =>
    have hc := hp.resolve_left (not_not.2 he)
    obtain ⟨r', e, he, h', hmap, hid⟩ := h.addSource_connectError he hc
    refine ⟨r', _, e, he, h', hid, View.ext (funext fun k => ?_) rfl⟩
    simp only [Renderer.view, hmap]
    cases hf : r.sourceMap.find k with
    | none => rfl
    | some source => simp [Renderer.created, h.ne_next hf]

end Renderer

end Ssr
