import Ssr.Control.SaveScene
import Ssr.Control.Proof.Forget

/-!
# Loading sources

No call of a loop over sources faults. `Loading` is what holds between two calls; a call appends the
new source to the Scene if it is created (`Loading.newSource`).
-/

set_option autoImplicit false

namespace Ssr

open Lib PosixPathTools

variable {F : Type}

theorem Renderer.handle_ok (cfg : RendererConfig) (r : Renderer F) {u : Update F}
    (h : DeletesNothing u) : ∃ r', r.handle cfg u = .ok r' := by
  cases u with
  | deleteSource id => exact absurd rfl (h.1 id)
  | deleteAllSources => exact absurd rfl h.2
  | _ => exact ⟨_, rfl⟩

variable [FloatOps F]

namespace Controller

variable {cfg : Config F} {c c' : Controller F} {env : Environment F} {fileName : String}
  {values : List (Source F)}

/-- Some realtime state fits the renderer. -/
def IsReady (cfg : Config F) (c : Controller F) : Prop :=
  ∃ rt, Renderer.Ready cfg.renderer c.renderer rt

/-- **A publish that deletes nothing** does not fault. -/
theorem IsReady.publish (h : c.IsReady cfg) {u : Update F} (hu : DeletesNothing u) :
    ∃ c', c.publish cfg u = .ok c' ∧ c'.IsReady cfg ∧ c'.scene = c.scene.handle u ∧
      c'.renderer.highestId = c.renderer.highestId := by
  obtain ⟨rt, hr⟩ := h
  obtain ⟨r, hhandle⟩ := Renderer.handle_ok cfg.renderer c.renderer hu
  have hpub : c.publish cfg u = .ok { c with scene := c.scene.handle u, renderer := r } := by
    simp only [Controller.publish, hhandle]
    rfl
  obtain ⟨hscene, -, hid⟩ := publish_fields hpub hu
  exact ⟨_, hpub, hr.handle hhandle, hscene, hid⟩

theorem IsReady.publishAll {us : List (Update F)} (h : c.IsReady cfg)
    (hus : ∀ u ∈ us, DeletesNothing u) :
    ∃ c', publishAll cfg us c = .ok c' ∧ c'.IsReady cfg ∧ c'.scene = us.foldl Scene.handle c.scene ∧
      c'.renderer.highestId = c.renderer.highestId := by
  induction us generalizing c with
  | nil => exact ⟨c, rfl, h, rfl, rfl⟩
  | cons u us ih =>
    obtain ⟨c₁, hc₁, h₁, hscene₁, hid₁⟩ := h.publish (hus u List.mem_cons_self)
    obtain ⟨c₂, hc₂, h₂, hscene₂, hid₂⟩ := ih h₁ fun u' hu' => hus u' (List.mem_cons_of_mem u hu')
    refine ⟨c₂, ?_, h₂, by rw [hscene₂, hscene₁, List.foldl_cons], hid₂.trans hid₁⟩
    simp only [Controller.publishAll, hc₁]
    exact hc₂

/-! ## A new source -/

/-- The source that `new_source` creates. -/
def newSourceOf (a : SourceArgs F) (portName fileName : String) (fileLength : ℤ) : Source F :=
  { name := a.name
    audioFileName := fileName
    audioFileChannel := if fileName ≠ "" then a.channel else 0
    portName
    fileLength
    position := a.position
    orientation := a.orientation
    model := a.model
    mute := a.muted
    gain := a.gain
    fixedPosition := a.positionFixed
    propertiesFile := a.propertiesFile }

/-- What the publishes of a call make of the Scene. -/
theorem foldl_newSourceUpdates {s : Scene F} {id : ℕ} (hid : s.sourceMap.find id = none)
    (a : SourceArgs F) (portName fileName : String) (fileLength : ℤ) :
    (newSourceUpdates a id portName fileName fileLength).foldl Scene.handle s =
      { s with
        sourceMap := s.sourceMap.insert id (newSourceOf a portName fileName fileLength) } := by
  have hnew : s.handle (.newSource id) = { s with sourceMap := s.sourceMap.insert id .new } := by
    simp only [Scene.handle, Scene.newSource, hid]
  have hset : ∀ (source : Source F) (assign : Source F → Source F),
      Scene.setSourceMember { s with sourceMap := s.sourceMap.insert id source } id assign =
        { s with sourceMap := s.sourceMap.insert id (assign source) } := fun source assign => by
    rw [Scene.setSourceMember, OrdMap.modify_insert]
  unfold newSourceUpdates
  by_cases hfile : fileName = ""
  · subst hfile
    simp only [ne_eq, not_true_eq_false, if_false, List.append_nil, List.cons_append,
      List.nil_append, List.foldl_cons, List.foldl_nil, hnew]
    simp only [Scene.handle, hset]
    rfl
  · simp only [ne_eq, hfile, not_false_eq_true, if_true, List.cons_append,
      List.nil_append, List.foldl_cons, List.foldl_nil, hnew]
    simp only [Scene.handle, hset]
    simp only [newSourceOf, ne_eq, hfile, not_false_eq_true, if_true]

/-- Between two calls the Scene has these sources, and the renderer's next id is larger than theirs.
-/
structure Loading (cfg : Config F) (c : Controller F) (values : List (Source F)) : Prop where
  values : c.scene.getSources = values
  bounded : ∀ id ∈ c.scene.sourceMap.keys, id ≤ c.renderer.highestId
  ready : c.IsReady cfg

/-- The call creates a source. -/
def Creates (cfg : Config F) (a : SourceArgs F) : Prop :=
  (0 < a.channel.toInt → cfg.ecasound = true) ∧ ¬Renderer.Fails cfg.renderer a.propertiesFile

theorem Loading.addSource (h : Loading cfg c values) (a : SourceArgs F) (portName fileName : String)
    (fileLength : ℤ) : ∃ c', c.addSource cfg a portName fileName fileLength = .ok c' ∧
      (¬Renderer.Fails cfg.renderer a.propertiesFile →
        Loading cfg c' (values ++ [newSourceOf a portName fileName fileLength])) ∧
      (Renderer.Fails cfg.renderer a.propertiesFile → Loading cfg c' values) := by
  obtain ⟨hvalues, hbounded, rt, hr⟩ := h
  have hlt : ∀ id ∈ c.scene.sourceMap.keys, id < c.renderer.highestId + 1 := fun id hid =>
    Nat.lt_succ_of_le (hbounded id hid)
  let p : SourceParams := { connectTo := portName, propertiesFile := a.propertiesFile }
  by_cases hp : Renderer.Fails cfg.renderer a.propertiesFile
  · obtain ⟨r, rt', e, he, hr', hid, -⟩ := hr.view_addSource_fails (p := p) hp
    refine ⟨{ c with renderer := r }, ?_, fun hn => absurd hp hn, fun _ => ⟨hvalues, ?_, rt', hr'⟩⟩
    · simp only [Controller.addSource, show c.renderer.addSource cfg.renderer
        { connectTo := portName, propertiesFile := a.propertiesFile } = _ from he]
    · exact fun id hmem => hid ▸ (hlt id hmem).le
  · obtain ⟨r, rt', he, hr', hid, -⟩ := hr.view_addSource (p := p) hp
    have hnone : c.scene.sourceMap.find (c.renderer.highestId + 1) = none := by
      rw [← Option.not_isSome_iff_eq_none, ← OrdMap.mem_keys_iff]
      exact fun hmem => absurd (hlt _ hmem) (Nat.lt_irrefl _)
    have hready : IsReady cfg { c with renderer := r } := ⟨rt', hr'⟩
    obtain ⟨c', hc', hready', hscene, hid'⟩ := hready.publishAll
      (newSourceUpdates_deletesNothing a (c.renderer.highestId + 1) portName fileName fileLength)
    rw [foldl_newSourceUpdates hnone] at hscene
    have hentries : c'.scene.sourceMap.entries = c.scene.sourceMap.entries ++
        [(c.renderer.highestId + 1, newSourceOf a portName fileName fileLength)] := by
      rw [hscene]
      exact OrdMap.entries_insert_last hlt _
    refine ⟨c', ?_, fun _ => ⟨?_, fun id hmem => ?_, hready'⟩, fun hf => absurd hf hp⟩
    · simp only [Controller.addSource, show c.renderer.addSource cfg.renderer
        { connectTo := portName, propertiesFile := a.propertiesFile } = _ from he]
      exact hc'
    · rw [Scene.getSources, hentries, List.map_append, ← hvalues]
      rfl
    · rw [hid', hid]
      rw [OrdMap.keys, hentries, List.map_append, List.mem_append] at hmem
      rcases hmem with hmem | hmem
      · exact (hlt id hmem).le
      · exact (List.mem_singleton.1 hmem).le

/-- **A call of `new_source`** appends the source that it creates. -/
theorem Loading.newSource (h : Loading cfg c values) (env : Environment F) {a : SourceArgs F}
    (ha : 0 ≤ a.channel.toInt) :
    ∃ c', c.newSource cfg env a = .ok c' ∧
      (Creates cfg a → ∃ portName fileLength, Loading cfg c' (values ++ [newSourceOf a portName
        (if 0 < a.channel.toInt then a.fileOrPortName else "") fileLength])) ∧
      (¬Creates cfg a → Loading cfg c' values) := by
  unfold Controller.newSource
  rw [if_neg (not_lt.2 ha)]
  by_cases hpos : a.channel.toInt > 0
  · rw [if_pos hpos, if_pos hpos]
    by_cases heca : cfg.ecasound = true
    · rw [if_pos heca]
      have h' : Loading cfg { c with
          audioPlayer := (getPortName env c.audioPlayer a.fileOrPortName a.channel).1 } values :=
        ⟨h.values, h.bounded, h.ready⟩
      obtain ⟨c', hc', hok, hfails⟩ := h'.addSource a
        (getPortName env c.audioPlayer a.fileOrPortName a.channel).2 a.fileOrPortName
        (getFileLength (getPortName env c.audioPlayer a.fileOrPortName a.channel).1 a.fileOrPortName)
      refine ⟨c', hc', fun hcr => ⟨_, _, hok hcr.2⟩, fun hcr => hfails ?_⟩
      exact not_not.1 fun hp => hcr ⟨fun _ => heca, hp⟩
    · rw [if_neg heca]
      exact ⟨c, rfl, fun hcr => absurd (hcr.1 hpos) heca, fun _ => h⟩
  · rw [if_neg hpos, if_neg hpos]
    obtain ⟨c', hc', hok, hfails⟩ := h.addSource a a.fileOrPortName "" 0
    refine ⟨c', hc', fun hcr => ⟨_, _, hok hcr.2⟩, fun hcr => hfails ?_⟩
    exact not_not.1 fun hp => hcr ⟨fun hp' => absurd hp' hpos, hp⟩

/-! ## Before and after the sources -/

theorem Loading.publish (h : Loading cfg c values) {u : Update F} (hu : DeletesNothing u)
    (hkeep : (c.scene.handle u).sourceMap = c.scene.sourceMap) :
    ∃ c', c.publish cfg u = .ok c' ∧ Loading cfg c' values := by
  obtain ⟨c', hc', hready, hscene, hid⟩ := h.ready.publish hu
  refine ⟨c', hc', ?_, ?_, hready⟩
  · rw [Scene.getSources, hscene, hkeep]
    exact h.values
  · rw [hscene, hkeep, hid]
    exact h.bounded

theorem Loading.startProcessing (h : Loading cfg c values) :
    ∃ c', c.startProcessing cfg = .ok c' ∧ Loading cfg c' values := by
  unfold Controller.startProcessing
  split
  · exact h.publish ⟨fun _ he => (by cases he), fun he => by cases he⟩ rfl
  · exact ⟨c, rfl, h⟩

theorem Loading.loadReference (h : Loading cfg c values) (position : Position F)
    (orientation : Orientation F) :
    ∃ c', c.loadReference cfg position orientation = .ok c' ∧ Loading cfg c' values := by
  have hstep : ∀ {c : Controller F} {u : Update F}, Loading cfg c values →
      u ∈ referenceUpdates position orientation → ∃ c', c.publish cfg u = .ok c' ∧
        Loading cfg c' values := by
    intro c u hc hu
    simp only [referenceUpdates, List.mem_cons, List.not_mem_nil, or_false] at hu
    rcases hu with rfl | rfl | rfl | rfl <;>
      exact hc.publish ⟨fun _ he => (by cases he), fun he => by cases he⟩ rfl
  obtain ⟨c₁, h₁, hl₁⟩ := hstep h (u := .referencePosition position) (by simp [referenceUpdates])
  obtain ⟨c₂, h₂, hl₂⟩ := hstep hl₁ (u := .referenceOrientation orientation)
    (by simp [referenceUpdates])
  obtain ⟨c₃, h₃, hl₃⟩ := hstep hl₂ (u := .referenceOffsetPosition .origin)
    (by simp [referenceUpdates])
  obtain ⟨c₄, h₄, hl₄⟩ := hstep hl₃ (u := .referenceOffsetOrientation .zero)
    (by simp [referenceUpdates])
  refine ⟨c₄, ?_, hl₄⟩
  simp only [Controller.loadReference, setReferencePosition, setReferenceOrientation,
    setReferenceOffsetPosition, setReferenceOffsetOrientation, h₁, h₂, h₃, h₄, bind, Except.bind]

/-- A document with at most one reference is loaded up to its sources. -/
theorem Loading.loadDocument (h : Loading cfg c values) (env : Environment F) (fileName : String)
    {doc : Node} {r : Position F × Orientation F} (hr : readReference doc = some r) :
    ∃ c', Loading cfg c' values ∧ c.loadDocument cfg env fileName doc =
      (loadSources cfg env fileName (doc.evalXpath "scene_setup" "source") c').map
        (·, .returned true) := by
  obtain ⟨c₁, h₁, hl₁⟩ := h.publish
    (u := .masterVolume (FloatOps.dB2linear (readVolume doc)))
    ⟨fun _ he => (by cases he), fun he => by cases he⟩ rfl
  have hl₂ : Loading cfg (c₁.setSceneDistance (readAmplitudeReferenceDistance cfg doc)) values :=
    ⟨hl₁.values, hl₁.bounded, hl₁.ready⟩
  obtain ⟨c₃, h₃, hl₃⟩ := hl₂.loadReference r.1 r.2
  refine ⟨c₃, hl₃, ?_⟩
  simp only [Controller.loadDocument, setMasterVolume, h₁, hr, h₃, bind, Except.bind]
  cases loadSources cfg env fileName (doc.evalXpath "scene_setup" "source") c₃ <;> rfl

theorem stopProcessing_total (h : c.IsReady cfg) : ∃ c', c.stopProcessing cfg = .ok c' ∧
    c'.IsReady cfg := by
  unfold Controller.stopProcessing
  split
  · obtain ⟨c', hc', hready, -⟩ := h.publish (u := .processingState false)
      ⟨fun _ he => (by cases he), fun he => by cases he⟩
    exact ⟨c', hc', hready⟩
  · exact ⟨c, rfl, h⟩

theorem deleteAllSources_loading (h : c.IsReady cfg) :
    ∃ c', c.deleteAllSources cfg = .ok c' ∧ Loading cfg c' [] := by
  obtain ⟨rt, hr⟩ := h
  obtain ⟨r, rt', hrem, hr', -, -, -⟩ := hr.remAllSources
  refine ⟨⟨c.scene.deleteAllSources, r, []⟩, ?_, rfl, fun id hid => (by cases hid), rt', hr'⟩
  simp only [Controller.deleteAllSources, Controller.publish, Renderer.handle, hrem, bind,
    Except.bind, pure, Except.pure]
  rfl

/-- **`load_scene` of a scene file** up to the branches for kinds of files. -/
theorem loadScene_asd (h : c.IsReady cfg) (env : Environment F)
    (hasd : getFileExtension fileName = "asd") :
    ∃ c₂, Loading cfg c₂ [] ∧ c.loadScene cfg env fileName =
      (c₂.loadAsd cfg env fileName).bind fun r =>
        match r.2 with
        | .returned true => (r.1.startProcessing cfg).map (·, .returned true)
        | _ => .ok r := by
  obtain ⟨c₁, h₁, hready₁⟩ := stopProcessing_total h
  obtain ⟨c₂, h₂, hl₂⟩ := deleteAllSources_loading hready₁
  refine ⟨c₂, hl₂, ?_⟩
  have hne : fileName ≠ "" := fun he => absurd (he ▸ hasd) (by decide)
  simp only [Controller.loadScene, h₁, h₂, bind, Except.bind, hne, if_false, hasd,
    Controller.loadSceneFile, if_true]
  rw [if_neg (by decide)]
  cases c₂.loadAsd cfg env fileName with
  | error e => rfl
  | ok r =>
    obtain ⟨c₃, out⟩ := r
    cases out with
    | threw => rfl
    | returned result =>
      cases result with
      | false => rfl
      | true => 
        simp only
        cases c₃.startProcessing cfg <;> rfl

end Controller

end Ssr
