import Ssr.Control.Proof.Agree

/-!
# Loading a scene forgets the previous one

`loadScene_forgets_iff`: two loads of the same scene file from any two reachable states end in the
same state if and only if the renderers had the same amplitude reference distance before. The proof
is a simulation: `Blank.loadReference` gives two controllers that are `Alike`, and every further
operation of `load_scene` keeps that (`Alike.publish`, `Alike.newSource`, `Alike.loadSources`).
-/

set_option autoImplicit false

namespace Ssr

open Lib PosixPathTools

variable {F : Type}

theorem Renderer.highestId_handle {cfg : RendererConfig} {r r' : Renderer F} {u : Update F}
    (h : r.handle cfg u = .ok r') (hone : ∀ id, u ≠ .deleteSource id)
    (hall : u ≠ .deleteAllSources) : r'.highestId = r.highestId := by
  have hset : ∀ id (value : SourceValue F), (r.setSource id value).highestId = r.highestId := by
    intro id value
    unfold Renderer.setSource
    split <;> rfl
  cases u with
  | deleteSource id => exact absurd rfl (hone id)
  | deleteAllSources => exact absurd rfl hall
  | sourcePosition | sourceOrientation | sourceGain | sourceMute | sourceModel =>
    cases h
    exact hset _ _
  | _ =>
    cases h
    rfl

variable [FloatOps F]

/-- The update deletes nothing. -/
def DeletesNothing (u : Update F) : Prop := (∀ id, u ≠ .deleteSource id) ∧ u ≠ .deleteAllSources

theorem View.apply_setDistance (v : View F) (u : Update F) (distance : F) :
    ∃ distance', (v.setDistance distance).apply u = (v.apply u).setDistance distance' := by
  cases u with
  | amplitudeReferenceDistance d => exact ⟨d, rfl⟩
  | _ => exact ⟨distance, rfl⟩

omit [FloatOps F] in
theorem View.setDistance_eq_iff {v w : View F} (h : ∃ d, v = w.setDistance d) :
    v = w ↔ v.state.amplitudeReferenceDistance = w.state.amplitudeReferenceDistance := by
  obtain ⟨d, rfl⟩ := h
  constructor
  · exact fun he => by rw [he]
  · intro he
    change d = _ at he
    rw [he]
    rfl

namespace Controller

variable {cfg : Config F} {c c' d d' : Controller F} {v w : View F} {env : Environment F}
  {fileName : String}

/-- Two controllers that differ at most in the renderer's amplitude reference distance. -/
structure Alike (cfg : Config F) (c d : Controller F) : Prop where
  scene : c.scene = d.scene
  audioPlayer : c.audioPlayer = d.audioPlayer
  highestId : c.renderer.highestId = d.renderer.highestId
  renderer : ∃ rt rt' distance, Renderer.Ready cfg.renderer c.renderer rt ∧
    Renderer.Ready cfg.renderer d.renderer rt' ∧
    c.renderer.view rt = (d.renderer.view rt').setDistance distance

/-! ## Each operation keeps controllers alike -/

theorem Alike.publish (h : Alike cfg c d) {u : Update F} (hc : c.publish cfg u = .ok c')
    (hd : d.publish cfg u = .ok d') (hdel : DeletesNothing u)
    (hnew : ∀ id, u = .newSource id → (c.renderer.sourceMap.find id).isSome ∧
      (d.renderer.sourceMap.find id).isSome) : Alike cfg c' d' := by
  obtain ⟨r, hr, hc⟩ := bind_ok hc
  obtain ⟨s, hs, hd⟩ := bind_ok hd
  cases hc
  cases hd
  obtain ⟨rt, rt', distance, hcr, hdr, hview⟩ := h.renderer
  obtain ⟨rt₁, hr₁, hview₁⟩ := hcr.view_handle hr fun id hid => (hnew id hid).1
  obtain ⟨rt₂, hs₂, hview₂⟩ := hdr.view_handle hs fun id hid => (hnew id hid).2
  obtain ⟨distance', happly⟩ := View.apply_setDistance (d.renderer.view rt') u distance
  refine ⟨congrArg (Scene.handle · u) h.scene, h.audioPlayer, ?_, rt₁, rt₂, distance', hr₁, hs₂, ?_⟩
  · rw [Renderer.highestId_handle hr hdel.1 hdel.2, Renderer.highestId_handle hs hdel.1 hdel.2,
      h.highestId]
  · rw [hview₁, hview₂, hview, happly]

theorem Alike.publishAll (h : Alike cfg c d) {us : List (Update F)}
    (hc : publishAll cfg us c = .ok c') (hd : publishAll cfg us d = .ok d')
    (hdel : ∀ u ∈ us, DeletesNothing u) (hnew : ∀ u ∈ us, ∀ id, u ≠ .newSource id) :
    Alike cfg c' d' := by
  induction us generalizing c d with
  | nil =>
    cases hc
    cases hd
    exact h
  | cons u us ih =>
    obtain ⟨c₁, hc₁, hc⟩ := bind_ok hc
    obtain ⟨d₁, hd₁, hd⟩ := bind_ok hd
    have hu := List.mem_cons_self (a := u) (l := us)
    refine ih (h.publish hc₁ hd₁ (hdel u hu) fun id he => absurd he (hnew u hu id)) hc hd
      (fun u' hu' => hdel u' (List.mem_cons_of_mem u hu'))
      fun u' hu' => hnew u' (List.mem_cons_of_mem u hu')

omit [FloatOps F] in
theorem newSourceUpdates_deletesNothing (a : SourceArgs F) (id : ℕ) (portName fileName : String)
    (fileLength : ℤ) :
    ∀ u ∈ newSourceUpdates a id portName fileName fileLength, DeletesNothing u := by
  refine fun u hu => ⟨fun id' he => ?_, fun he => ?_⟩
  all_goals
    subst he
    simp only [newSourceUpdates, List.mem_append, List.mem_cons, reduceCtorEq, List.not_mem_nil,
      or_false, false_or] at hu
    split at hu
    · simp at hu
    · cases hu

theorem Alike.addSource (h : Alike cfg c d) {a : SourceArgs F} {portName fileName : String}
    {fileLength : ℤ} (hc : c.addSource cfg a portName fileName fileLength = .ok c')
    (hd : d.addSource cfg a portName fileName fileLength = .ok d') : Alike cfg c' d' := by
  obtain ⟨rt, rt', distance, hcr, hdr, hview⟩ := h.renderer
  unfold Controller.addSource at hc hd
  let p : SourceParams := { connectTo := portName, propertiesFile := a.propertiesFile }
  by_cases hp : Renderer.Fails cfg.renderer a.propertiesFile
  · obtain ⟨r₁, rt₁, e₁, he₁, h₁, hid₁, hv₁⟩ := hcr.view_addSource_fails (p := p) hp
    obtain ⟨r₂, rt₂, e₂, he₂, h₂, hid₂, hv₂⟩ := hdr.view_addSource_fails (p := p) hp
    simp only [p] at he₁ he₂
    simp only [he₁] at hc
    simp only [he₂] at hd
    cases hc
    cases hd
    exact ⟨h.scene, h.audioPlayer, by rw [hid₁, hid₂, h.highestId], rt₁, rt₂, distance, h₁, h₂,
      by rw [hv₁, hv₂, hview]⟩
  · obtain ⟨r₁, rt₁, he₁, h₁, hid₁, hsome₁, hv₁⟩ := hcr.view_addSource (p := p) hp
    obtain ⟨r₂, rt₂, he₂, h₂, hid₂, hsome₂, hv₂⟩ := hdr.view_addSource (p := p) hp
    simp only [p] at he₁ he₂
    simp only [he₁] at hc
    simp only [he₂, ← h.highestId] at hd
    rw [← h.highestId] at hsome₂ hv₂
    have halike : Alike cfg { c with renderer := r₁ } { d with renderer := r₂ } :=
      ⟨h.scene, h.audioPlayer, by rw [hid₁, hid₂, h.highestId], rt₁, rt₂, distance, h₁, h₂,
        by rw [hv₁, hv₂, hview]; rfl⟩
    obtain ⟨us, hus, hnew⟩ :=
      newSourceUpdates_eq a (c.renderer.highestId + 1) portName fileName fileLength
    have hdel :=
      newSourceUpdates_deletesNothing a (c.renderer.highestId + 1) portName fileName fileLength
    rw [hus] at hc hd hdel
    obtain ⟨c₁, hc₁, hc⟩ := bind_ok hc
    obtain ⟨d₁, hd₁, hd⟩ := bind_ok hd
    refine Alike.publishAll (halike.publish hc₁ hd₁ (hdel _ List.mem_cons_self) ?_) hc hd
      (fun u hu => hdel u (List.mem_cons_of_mem _ hu)) hnew
    intro id he
    cases he
    exact ⟨hsome₁, hsome₂⟩

theorem Alike.newSource (h : Alike cfg c d) {a : SourceArgs F}
    (hc : c.newSource cfg env a = .ok c') (hd : d.newSource cfg env a = .ok d') :
    Alike cfg c' d' := by
  unfold Controller.newSource at hc hd
  by_cases hneg : a.channel.toInt < 0
  · rw [if_pos hneg] at hc
    cases hc
  · rw [if_neg hneg] at hc hd
    by_cases hpos : a.channel.toInt > 0
    · rw [if_pos hpos] at hc hd
      by_cases heca : cfg.ecasound = true
      · rw [if_pos heca] at hc hd
        rw [← h.audioPlayer] at hd
        let player := (getPortName env c.audioPlayer a.fileOrPortName a.channel).1
        have halike : Alike cfg { c with audioPlayer := player } { d with audioPlayer := player } :=
          ⟨h.scene, rfl, h.highestId, h.renderer⟩
        exact halike.addSource hc hd
      · rw [if_neg heca] at hc hd
        cases hc
        cases hd
        exact h
    · rw [if_neg hpos] at hc hd
      exact h.addSource hc hd

theorem Alike.loadSources {nodes : List Node} (h : Alike cfg c d)
    (hc : loadSources cfg env fileName nodes c = .ok c')
    (hd : loadSources cfg env fileName nodes d = .ok d') : Alike cfg c' d' := by
  induction nodes generalizing c d with
  | nil =>
    cases hc
    cases hd
    exact h
  | cons node nodes ih =>
    obtain ⟨a, ha, hc⟩ := bind_ok hc
    obtain ⟨b, hb, hd⟩ := bind_ok hd
    rw [ha] at hb
    cases hb
    cases a with
    | none => exact ih h hc hd
    | some a =>
      obtain ⟨c₁, hc₁, hc⟩ := bind_ok hc
      obtain ⟨d₁, hd₁, hd⟩ := bind_ok hd
      exact ih (h.newSource hc₁ hd₁) hc hd

theorem Alike.startProcessing (h : Alike cfg c d) (hc : c.startProcessing cfg = .ok c')
    (hd : d.startProcessing cfg = .ok d') : Alike cfg c' d' := by
  unfold Controller.startProcessing at hc hd
  rw [← h.scene] at hd
  by_cases hp : (!c.scene.processingState) = true
  · rw [if_pos hp] at hc hd
    exact h.publish hc hd ⟨fun _ he => (by cases he), fun he => by cases he⟩ fun _ he => by cases he
  · rw [if_neg hp] at hc hd
    cases hc
    cases hd
    exact h

/-! ## After the sources have been deleted -/

/-- No sources, no audio player, ids from 1 on, and no processing. -/
structure Blank (cfg : Config F) (c : Controller F) : Prop where
  sourceMap : c.scene.sourceMap = .empty
  processing : c.scene.processingState = false
  audioPlayer : c.audioPlayer = []
  highestId : c.renderer.highestId = 0
  renderer : ∃ rt, Renderer.Ready cfg.renderer c.renderer rt ∧ c.renderer.sourceMap = .empty ∧
    rt.state.processing = false

theorem stopProcessing_blank (h : c.Views cfg v w) (hlink : View.Linked v w)
    (hs : c.stopProcessing cfg = .ok c') : c'.scene.processingState = false ∧
      ∃ rt, Renderer.Ready cfg.renderer c'.renderer rt ∧ rt.state.processing = false := by
  unfold stopProcessing at hs
  by_cases hp : c.scene.processingState = true
  · rw [if_pos hp] at hs
    obtain ⟨-, rt, hr, hview⟩ := h.publish hs fun _ he => by cases he
    obtain ⟨r, -, hc⟩ := bind_ok hs
    refine ⟨?_, rt, hr, congrArg (fun v => v.state.processing) hview⟩
    cases hc
    rfl
  · rw [if_neg hp] at hs
    cases hs
    obtain ⟨rfl, rt, hr, rfl⟩ := h
    obtain ⟨o, d, hlink⟩ := hlink
    have hpr := congrArg (fun v => v.state.processing) hlink
    exact ⟨Bool.eq_false_iff.2 hp, rt, hr, hpr.symm.trans (Bool.eq_false_iff.2 hp)⟩

theorem deleteAllSources_blank {rt : RtState F} (hp : c.scene.processingState = false)
    (hr : Renderer.Ready cfg.renderer c.renderer rt) (hrt : rt.state.processing = false)
    (hd : c.deleteAllSources cfg = .ok c') : Blank cfg c' := by
  obtain ⟨c₁, hpub, hc⟩ := bind_ok hd
  obtain ⟨r, hr', hc₁⟩ := bind_ok hpub
  cases hc₁
  cases hc
  obtain ⟨r₁, rt₁, hrem, h₁, hmap, hid, hstate⟩ := hr.remAllSources
  have heq : r₁ = r := Except.ok.inj (hrem.symm.trans hr')
  subst heq
  exact ⟨rfl, hp, rfl, hid, rt₁, h₁, hmap, by rw [hstate, hrt]⟩

theorem blank_of_delete {c₁ : Controller F} (h : c.Views cfg v w) (hlink : View.Linked v w)
    (hs : c.stopProcessing cfg = .ok c₁) (hd : c₁.deleteAllSources cfg = .ok c') :
    Blank cfg c' := by
  obtain ⟨hp, rt, hr, hrt⟩ := stopProcessing_blank h hlink hs
  exact deleteAllSources_blank hp hr hrt hd

/-- What a publish does outside of the views. -/
theorem publish_fields {u : Update F} (h : c.publish cfg u = .ok c') (hdel : DeletesNothing u) :
    c'.scene = c.scene.handle u ∧ c'.audioPlayer = c.audioPlayer ∧
      c'.renderer.highestId = c.renderer.highestId := by
  obtain ⟨r, hr, hc⟩ := bind_ok h
  cases hc
  exact ⟨rfl, rfl, Renderer.highestId_handle hr hdel.1 hdel.2⟩

/-- Volume, distance and reference of the scene file, in this order. -/
def loadSettings (cfg : Config F) (c : Controller F) (volume distance : F) (position : Position F)
    (orientation : Orientation F) : Except Fault (Controller F) := do
  let c ← c.setMasterVolume cfg volume
  (c.setSceneDistance distance).loadReference cfg position orientation

variable {volume distance : F} {position : Position F} {orientation : Orientation F}

theorem loadSettings_fields
    (h : loadSettings cfg c volume distance position orientation = .ok c') :
    c'.scene =
      { c.scene with
        referencePosition := position
        referenceOrientation := orientation
        referenceOffsetPosition := .origin
        referenceOffsetOrientation := .zero
        masterVolume := volume
        amplitudeReferenceDistance := distance } ∧
      c'.audioPlayer = c.audioPlayer ∧ c'.renderer.highestId = c.renderer.highestId := by
  have hdel : ∀ u : Update F, (∀ id, u ≠ .deleteSource id) → u ≠ .deleteAllSources →
      DeletesNothing u := fun u h₁ h₂ => ⟨h₁, h₂⟩
  obtain ⟨c₀, h₀, h⟩ := bind_ok h
  obtain ⟨c₁, h₁, h⟩ := bind_ok h
  obtain ⟨c₂, h₂, h⟩ := bind_ok h
  obtain ⟨c₃, h₃, h₄⟩ := bind_ok h
  obtain ⟨hs₀, ha₀, hi₀⟩ := publish_fields h₀ (hdel _ (fun _ he => by cases he) fun he => by cases he)
  obtain ⟨hs₁, ha₁, hi₁⟩ := publish_fields h₁ (hdel _ (fun _ he => by cases he) fun he => by cases he)
  obtain ⟨hs₂, ha₂, hi₂⟩ := publish_fields h₂ (hdel _ (fun _ he => by cases he) fun he => by cases he)
  obtain ⟨hs₃, ha₃, hi₃⟩ := publish_fields h₃ (hdel _ (fun _ he => by cases he) fun he => by cases he)
  obtain ⟨hs₄, ha₄, hi₄⟩ := publish_fields h₄ (hdel _ (fun _ he => by cases he) fun he => by cases he)
  refine ⟨?_, ha₄.trans (ha₃.trans (ha₂.trans (ha₁.trans ha₀))),
    hi₄.trans (hi₃.trans (hi₂.trans (hi₁.trans hi₀)))⟩
  rw [hs₄, hs₃, hs₂, hs₁, Controller.setSceneDistance, hs₀]
  rfl

theorem loadSettings_views (hv : c.Views cfg v w)
    (h : loadSettings cfg c volume distance position orientation = .ok c') :
    ∃ v', c'.Views cfg v' ((w.apply (.masterVolume volume)).applyAll
      (referenceUpdates position orientation)) := by
  obtain ⟨c₁, h₁, h⟩ := bind_ok h
  have hv₁ := hv.publish h₁ fun _ he => by cases he
  have hv₂ : (c₁.setSceneDistance distance).Views cfg ((v.apply (.masterVolume volume)).setDistance
      distance) (w.apply (.masterVolume volume)) :=
    ⟨congrArg (View.setDistance · distance) hv₁.1, hv₁.2⟩
  exact ⟨_, loadReference_views hv₂ h⟩

/-- Two blank controllers are alike once the settings are loaded. -/
theorem Blank.loadSettings (hc : Blank cfg c) (hd : Blank cfg d)
    (hc' : loadSettings cfg c volume distance position orientation = .ok c')
    (hd' : loadSettings cfg d volume distance position orientation = .ok d') :
    Alike cfg c' d' := by
  obtain ⟨rt, hr, hmap, hpr⟩ := hc.renderer
  obtain ⟨rt', hr', hmap', hpr'⟩ := hd.renderer
  obtain ⟨hscene, hplayer, hid⟩ := loadSettings_fields hc'
  obtain ⟨hscene', hplayer', hid'⟩ := loadSettings_fields hd'
  obtain ⟨-, -, rt₁, hr₁, hview⟩ := loadSettings_views ⟨rfl, rt, hr, rfl⟩ hc'
  obtain ⟨-, -, rt₂, hr₂, hview'⟩ := loadSettings_views ⟨rfl, rt', hr', rfl⟩ hd'
  refine ⟨?_, by rw [hplayer, hplayer', hc.audioPlayer, hd.audioPlayer],
    by rw [hid, hid', hc.highestId, hd.highestId], rt₁, rt₂, rt.state.amplitudeReferenceDistance, hr₁,
    hr₂, ?_⟩
  · rw [hscene, hscene', Scene.mk.injEq]
    exact ⟨hc.sourceMap.trans hd.sourceMap.symm, rfl, rfl, rfl, rfl, rfl, rfl,
      hc.processing.trans hd.processing.symm⟩
  · rw [hview, hview']
    refine View.ext (funext fun id => ?_) ?_
    · change (c.renderer.sourceMap.find id).map _ = (d.renderer.sourceMap.find id).map _
      rw [hmap, hmap']
      rfl
    · change RenderState.mk position orientation .origin .zero volume rt.state.processing
        rt.state.amplitudeReferenceDistance = RenderState.mk position orientation .origin .zero volume
          rt'.state.processing rt.state.amplitudeReferenceDistance
      rw [hpr, hpr']

/-! ## The whole call -/

theorem loadDocument_true {doc : Node}
    (h : c.loadDocument cfg env fileName doc = .ok (c', .returned true)) :
    ∃ r c₁, readReference doc = some r ∧
      loadSettings cfg c (FloatOps.dB2linear (readVolume doc))
        (readAmplitudeReferenceDistance cfg doc) r.1 r.2 = .ok c₁ ∧
      loadSources cfg env fileName (doc.evalXpath "scene_setup" "source") c₁ = .ok c' := by
  obtain ⟨c₁, h₁, h⟩ := bind_ok h
  cases href : (readReference doc : Option (Position F × Orientation F)) with
  | none =>
    simp only [href] at h
    cases h
  | some r =>
    simp only [href] at h
    obtain ⟨c₂, h₂, h⟩ := bind_ok h
    obtain ⟨c₃, h₃, h⟩ := bind_ok h
    cases h
    refine ⟨r, c₂, rfl, ?_, h₃⟩
    simp only [Controller.loadSettings, h₁]
    exact h₂

/-- A successful load of a scene file in terms of its steps. -/
theorem loadScene_asd_true (hasd : getFileExtension fileName = "asd")
    (h : c.loadScene cfg env fileName = .ok (c', .returned true)) :
    ∃ doc r c₁ c₂ c₃ c₄, env.loadFile fileName = some doc ∧ c.stopProcessing cfg = .ok c₁ ∧
      c₁.deleteAllSources cfg = .ok c₂ ∧ readReference doc = some r ∧
      loadSettings cfg c₂ (FloatOps.dB2linear (readVolume doc))
        (readAmplitudeReferenceDistance cfg doc) r.1 r.2 = .ok c₃ ∧
      loadSources cfg env fileName (doc.evalXpath "scene_setup" "source") c₃ = .ok c₄ ∧
      c₄.startProcessing cfg = .ok c' ∧ ∃ d, loadedDistance cfg env fileName = some d := by
  obtain ⟨c₁, c₂, h₁, h₂, h⟩ := loadScene_cases h
  rcases h with ⟨rfl, -⟩ | ⟨-, -, -, hout⟩ | ⟨c₃, out₃, -, h₃, h⟩
  · exact absurd hasd (by decide)
  · cases hout
  · rcases h with ⟨rfl, h₄, -⟩ | ⟨hne, -, hout⟩
    · rw [loadSceneFile, if_pos hasd] at h₃
      rcases loadAsd_cases h₃ with ⟨doc, hdoc, hschema, hvalid, h₃⟩ | ⟨-, -, hout⟩ | ⟨-, -, hout⟩
      · obtain ⟨r, c₅, hr, h₅, h₆⟩ := loadDocument_true h₃
        refine ⟨doc, r, c₁, c₂, c₅, c₃, hdoc, h₁, h₂, hr, h₅, h₆, h₄,
          readAmplitudeReferenceDistance cfg doc, ?_⟩
        rw [loadedDistance, if_pos ⟨hasd, hschema⟩, hdoc, Option.filter, if_pos hvalid]
        rfl
      · cases hout
      · cases hout
    · exact absurd hout.symm hne

/-- After the load the controllers are alike. -/
theorem loadScene_alike (hc : ∃ v w, c.Views cfg v w ∧ View.Linked v w)
    (hd : ∃ v w, d.Views cfg v w ∧ View.Linked v w) (hasd : getFileExtension fileName = "asd")
    (hc' : c.loadScene cfg env fileName = .ok (c', .returned true))
    (hd' : d.loadScene cfg env fileName = .ok (d', .returned true)) : Alike cfg c' d' := by
  obtain ⟨v, w, hvc, hlc⟩ := hc
  obtain ⟨v', w', hvd, hld⟩ := hd
  obtain ⟨doc, r, c₁, c₂, c₃, c₄, hdoc, hc₁, hc₂, hr, hc₃, hc₄, hc₅, -⟩ := loadScene_asd_true hasd hc'
  obtain ⟨doc', r', d₁, d₂, d₃, d₄, hdoc', hd₁, hd₂, hr', hd₃, hd₄, hd₅, -⟩ :=
    loadScene_asd_true hasd hd'
  rw [hdoc] at hdoc'
  cases hdoc'
  rw [hr] at hr'
  cases hr'
  have hblank := blank_of_delete hvc hlc hc₁ hc₂
  have halike := hblank.loadSettings (blank_of_delete hvd hld hd₁ hd₂) hc₃ hd₃
  exact (halike.loadSources hc₄ hd₄).startProcessing hc₅ hd₅

/-- The Scenes are equal, and so is what the renderers hold once all pending commands have been
executed. -/
def SameResult (c d : Controller F) : Prop :=
  c.scene = d.scene ∧ ∃ rt rt', c.renderer.flushed = .ok rt ∧ d.renderer.flushed = .ok rt' ∧
    c.renderer.view rt = d.renderer.view rt'

/-- The renderers have the same amplitude reference distance once all pending commands have been
executed. -/
def SameDistance (c d : Controller F) : Prop :=
  ∃ rt rt', c.renderer.flushed = .ok rt ∧ d.renderer.flushed = .ok rt' ∧
    rt.state.amplitudeReferenceDistance = rt'.state.amplitudeReferenceDistance

omit [FloatOps F] in
theorem sameDistance_iff {rt rt' : RtState F} (hc : Renderer.Ready cfg.renderer c.renderer rt)
    (hd : Renderer.Ready cfg.renderer d.renderer rt') : SameDistance c d ↔
      rt.state.amplitudeReferenceDistance = rt'.state.amplitudeReferenceDistance := by
  constructor
  · rintro ⟨rt₁, rt₂, h₁, h₂, he⟩
    rw [hc.flushed] at h₁
    rw [hd.flushed] at h₂
    cases h₁
    cases h₂
    exact he
  · exact fun he => ⟨rt, rt', hc.flushed, hd.flushed, he⟩

omit [FloatOps F] in
theorem Alike.sameResult_iff (h : Alike cfg c d) : SameResult c d ↔ SameDistance c d := by
  obtain ⟨rt, rt', distance, hc, hd, hview⟩ := h.renderer
  rw [sameDistance_iff hc hd]
  refine Iff.trans ⟨?_, ?_⟩ (View.setDistance_eq_iff ⟨distance, hview⟩)
  · rintro ⟨-, rt₁, rt₂, h₁, h₂, he⟩
    rw [hc.flushed] at h₁
    rw [hd.flushed] at h₂
    cases h₁
    cases h₂
    exact he
  · exact fun he => ⟨h.scene, rt, rt', hc.flushed, hd.flushed, he⟩

/-- A scene file does not reach the renderer's amplitude reference distance. -/
theorem loadScene_distance (h : c.Views cfg v w) (hasd : getFileExtension fileName = "asd")
    (hl : c.loadScene cfg env fileName = .ok (c', .returned true)) :
    ∃ v' w', c'.Views cfg v' w' ∧
      w'.state.amplitudeReferenceDistance = w.state.amplitudeReferenceDistance := by
  obtain ⟨-, -, -, -, -, -, -, -, -, -, -, -, -, distance, hd⟩ := loadScene_asd_true hasd hl
  obtain ⟨v', w', h', -, he⟩ := loadScene_views h hl
  rw [hd] at he
  exact ⟨v', w', h', he.distance_right⟩

/-- **Loading a scene file forgets the previous scene** if and only if the renderers of the two
states had the same amplitude reference distance. -/
theorem loadScene_forgets_iff {env₁ env₂ : Environment F} {c₁ c₂ : Controller F}
    {ops₁ ops₂ : List (Op F)} (hnew₁ : new cfg env₁ = some c₁) (hnew₂ : new cfg env₂ = some c₂)
    (hrun₁ : run (step cfg) c₁ ops₁ = some c) (hrun₂ : run (step cfg) c₂ ops₂ = some d)
    (hasd : getFileExtension fileName = "asd")
    (hc : c.loadScene cfg env fileName = .ok (c', .returned true))
    (hd : d.loadScene cfg env fileName = .ok (d', .returned true)) :
    SameResult c' d' ↔ SameDistance c d := by
  have hlink₁ := linked_of_run hnew₁ hrun₁
  have hlink₂ := linked_of_run hnew₂ hrun₂
  rw [(loadScene_alike hlink₁ hlink₂ hasd hc hd).sameResult_iff]
  obtain ⟨v₁, w₁, hv₁, -⟩ := hlink₁
  obtain ⟨v₂, w₂, hv₂, -⟩ := hlink₂
  obtain ⟨-, w₁', ⟨-, rt₁', hr₁', rfl⟩, hdist₁⟩ := loadScene_distance hv₁ hasd hc
  obtain ⟨-, w₂', ⟨-, rt₂', hr₂', rfl⟩, hdist₂⟩ := loadScene_distance hv₂ hasd hd
  obtain ⟨-, rt₁, hr₁, rfl⟩ := hv₁
  obtain ⟨-, rt₂, hr₂, rfl⟩ := hv₂
  rw [sameDistance_iff hr₁' hr₂', sameDistance_iff hr₁ hr₂]
  change rt₁'.state.amplitudeReferenceDistance = rt₁.state.amplitudeReferenceDistance at hdist₁
  change rt₂'.state.amplitudeReferenceDistance = rt₂.state.amplitudeReferenceDistance at hdist₂
  rw [hdist₁, hdist₂]

/-- All scene files have a source that plays a sound file and a muted one with an input port. -/
def duetEnvironment : Environment ℤ :=
  { monoEnvironment with
    loadFile := fun _ => some (.element "asdf" [] [.element "scene_setup" []
      [.element "source" [("name", "flute"), ("model", "plane")]
        [.element "file" [("channel", "1")] [.text "flute.wav"],
          .element "position" [("x", "-1"), ("y", "2")] [],
          .element "orientation" [("azimuth", "-60")] []],
        .element "source" [("name", "cello"), ("mute", "true")]
          [.element "port" [] [.text "2"], .element "position" [("x", "1"), ("y", "2")] []]]]) }

theorem loadScene_forgets_iff_duet : ∃ c c' d d',
    new soundfileConfig monoEnvironment = some c ∧
    run (step soundfileConfig) c [.setSourceGain 1 7, .setMasterVolume 5] = some d ∧
    c.loadScene soundfileConfig duetEnvironment "s.asd" = .ok (c', .returned true) ∧
    d.loadScene soundfileConfig duetEnvironment "s.asd" = .ok (d', .returned true) ∧
    d'.scene.sourceMap.entries.map (·.2.name) = ["flute", "cello"] ∧ SameResult c' d' := by
  obtain ⟨c, hc⟩ : ∃ c, new soundfileConfig monoEnvironment = some c := ⟨_, rfl⟩
  obtain ⟨d, hd, hdistance⟩ : ∃ d, run (step soundfileConfig) c
      [.setSourceGain 1 7, .setMasterVolume 5] = some d ∧ SameDistance c d := by
    cases hc
    exact ⟨_, rfl, _, _, rfl, rfl, rfl⟩
  obtain ⟨c', hc'⟩ : ∃ c', c.loadScene soundfileConfig duetEnvironment "s.asd" =
      .ok (c', .returned true) := by
    cases hc
    exact ⟨_, rfl⟩
  obtain ⟨d', hd', hnames⟩ : ∃ d', d.loadScene soundfileConfig duetEnvironment "s.asd" =
      .ok (d', .returned true) ∧ d'.scene.sourceMap.entries.map (·.2.name) = ["flute", "cello"] := by
    cases hc
    cases hd
    exact ⟨_, rfl, rfl⟩
  exact ⟨c, c', d, d', hc, hd, hc', hd', hnames,
    (loadScene_forgets_iff hc hc run_nil hd (by decide) hc' hd').2 hdistance⟩

/-- A distance that was set before the load stays in the renderer. -/
theorem loadScene_remembers_distance :
    ¬ ∀ (cfg : Config ℤ) (env₁ env₂ env : Environment ℤ) (fileName : String)
      (c₁ c₂ c d c' d' : Controller ℤ) (ops₁ ops₂ : List (Op ℤ)),
      getFileExtension fileName = "asd" → new cfg env₁ = some c₁ → new cfg env₂ = some c₂ →
      run (step cfg) c₁ ops₁ = some c → run (step cfg) c₂ ops₂ = some d →
      c.loadScene cfg env fileName = .ok (c', .returned true) →
      d.loadScene cfg env fileName = .ok (d', .returned true) → SameResult c' d' := by
  intro h
  let cfg : Config ℤ := { soundfileConfig with sceneFileName := "" }
  have hsame := h cfg monoEnvironment monoEnvironment emptySceneEnvironment "s.asd" _ _ _ _ _ _ []
    [.setAmplitudeReferenceDistance 5] (by decide) rfl rfl rfl rfl rfl rfl
  obtain ⟨-, rt, rt', hf, hf', he⟩ := hsame
  cases hf
  cases hf'
  have hdist := congrArg (fun v => v.state.amplitudeReferenceDistance) he
  change (3 : ℤ) = 5 at hdist
  cases hdist

end Controller

end Ssr
