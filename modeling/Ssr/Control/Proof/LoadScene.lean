import Ssr.Control.Proof.Views

/-!
# The effect of load_scene

`loadScene_cases` lists the exits of `load_scene`. `loadScene_views` says what it does to the views
of Scene and renderer: both apply the same updates, apart from the amplitude reference distance,
which a scene file sets in the Scene alone (`loadedDistance`).
-/

set_option autoImplicit false

namespace Ssr

open Lib PosixPathTools

variable {F : Type}

/-- `_scene.set_amplitude_reference_distance` on a view. -/
def View.setDistance (v : View F) (distance : F) : View F :=
  { v with state := { v.state with amplitudeReferenceDistance := distance } }

variable [FloatOps F]

/-- The update does not change the amplitude reference distance. -/
def KeepsDistance (u : Update F) : Prop :=
  ∀ v : View F, (v.apply u).state.amplitudeReferenceDistance = v.state.amplitudeReferenceDistance

theorem OnSources.keepsDistance {u : Update F} (h : OnSources u) : KeepsDistance u := fun v =>
  congrArg RenderState.amplitudeReferenceDistance (h v)

theorem OnProcessing.keepsDistance {u : Update F} (h : OnProcessing u) : KeepsDistance u := by
  obtain ⟨b, rfl⟩ := h
  exact fun _ => rfl

theorem View.apply_orientation (u : Update F) {v w : View F}
    (h : v.state.referenceOrientation = w.state.referenceOrientation) :
    (v.apply u).state.referenceOrientation = (w.apply u).state.referenceOrientation := by
  cases u with
  | referenceOrientation => rfl
  | _ => exact h

theorem View.applyAll_orientation (us : List (Update F)) {v w : View F}
    (h : v.state.referenceOrientation = w.state.referenceOrientation) :
    (v.applyAll us).state.referenceOrientation = (w.applyAll us).state.referenceOrientation :=
  View.applyAll_rel
    (R := fun v w => v.state.referenceOrientation = w.state.referenceOrientation)
    (fun u _ _ => View.apply_orientation u) h

/-- The amplitude reference distance that `load_scene` reads from the file, if it gets that far. -/
def loadedDistance (cfg : Config F) (env : Environment F) (fileName : String) : Option F :=
  if getFileExtension fileName = "asd" ∧ cfg.xmlSchema ≠ "" then
    ((env.loadFile fileName).filter (env.validate cfg.xmlSchema ·)).map
      (readAmplitudeReferenceDistance cfg)
  else none

/-- What `load_scene` publishes for the reference. -/
def referenceUpdates (position : Position F) (orientation : Orientation F) : List (Update F) :=
  [.referencePosition position, .referenceOrientation orientation,
    .referenceOffsetPosition .origin, .referenceOffsetOrientation .zero]

namespace Controller

variable {cfg : Config F} {c c' : Controller F} {v w : View F} {env : Environment F}
  {fileName : String} {out : Outcome}

theorem loadReference_views (h : c.Views cfg v w) {position : Position F}
    {orientation : Orientation F} (hl : c.loadReference cfg position orientation = .ok c') :
    c'.Views cfg (v.applyAll (referenceUpdates position orientation))
      (w.applyAll (referenceUpdates position orientation)) := by
  obtain ⟨c₁, h₁, hl⟩ := bind_ok hl
  obtain ⟨c₂, h₂, hl⟩ := bind_ok hl
  obtain ⟨c₃, h₃, h₄⟩ := bind_ok hl
  have hv₁ := h.publish h₁ fun _ he => by cases he
  have hv₂ := hv₁.publish h₂ fun _ he => by cases he
  have hv₃ := hv₂.publish h₃ fun _ he => by cases he
  exact hv₃.publish h₄ fun _ he => by cases he

/-- A valid document: the volume, the distance (in the Scene alone), the reference, the sources. -/
theorem loadDocument_views (h : c.Views cfg v w) {doc : Node}
    (hl : c.loadDocument cfg env fileName doc = .ok (c', out)) :
    ∃ us, c'.Views cfg
        (((v.apply (.masterVolume (FloatOps.dB2linear (readVolume doc)))).setDistance
          (readAmplitudeReferenceDistance cfg doc)).applyAll us)
        ((w.apply (.masterVolume (FloatOps.dB2linear (readVolume doc)))).applyAll us) ∧
      (out = .returned false ∧ us = [] ∨ out = .returned true ∧
        ∃ position orientation us', readReference doc = some (position, orientation) ∧
          us = referenceUpdates position orientation ++ us' ∧ ∀ u ∈ us', OnSources u) := by
  obtain ⟨c₁, h₁, hl⟩ := bind_ok hl
  have hv₁ := h.publish h₁ fun _ he => by cases he
  have hv₂ : (c₁.setSceneDistance (readAmplitudeReferenceDistance cfg doc)).Views cfg
      ((v.apply (.masterVolume (FloatOps.dB2linear (readVolume doc)))).setDistance
        (readAmplitudeReferenceDistance cfg doc))
      (w.apply (.masterVolume (FloatOps.dB2linear (readVolume doc)))) :=
    ⟨congrArg (View.setDistance · _) hv₁.1, hv₁.2⟩
  cases href : (readReference doc : Option (Position F × Orientation F)) with
  | none =>
    simp only [href] at hl
    cases hl
    exact ⟨[], hv₂, .inl ⟨rfl, rfl⟩⟩
  | some r =>
    obtain ⟨position, orientation⟩ := r
    simp only [href] at hl
    obtain ⟨c₃, h₃, hl⟩ := bind_ok hl
    obtain ⟨c₄, h₄, hl⟩ := bind_ok hl
    cases hl
    obtain ⟨us, hus, hv₄⟩ := loadSources_effect h₄ _ _ (loadReference_views hv₂ h₃)
    refine ⟨referenceUpdates position orientation ++ us, ?_,
      .inr ⟨rfl, position, orientation, us, rfl, rfl, hus⟩⟩
    rwa [View.applyAll_append, View.applyAll_append]

theorem loadAsd_cases (hl : c.loadAsd cfg env fileName = .ok (c', out)) :
    (∃ doc, env.loadFile fileName = some doc ∧ cfg.xmlSchema ≠ "" ∧
      env.validate cfg.xmlSchema doc = true ∧
      c.loadDocument cfg env fileName doc = .ok (c', out)) ∨
    (env.loadFile fileName).filter (env.validate cfg.xmlSchema ·) = none ∧ c' = c ∧
      out = .returned false ∨
    cfg.xmlSchema = "" ∧ c' = c ∧ out = .returned false := by
  unfold loadAsd at hl
  cases hdoc : env.loadFile fileName with
  | none =>
    simp only [hdoc] at hl
    cases hl
    exact .inr (.inl ⟨rfl, rfl, rfl⟩)
  | some doc =>
    simp only [hdoc] at hl
    by_cases hschema : cfg.xmlSchema = ""
    · rw [if_pos hschema] at hl
      cases hl
      exact .inr (.inr ⟨hschema, rfl, rfl⟩)
    · rw [if_neg hschema] at hl
      by_cases hvalid : env.validate cfg.xmlSchema doc = true
      · rw [if_pos hvalid] at hl
        exact .inl ⟨doc, rfl, hschema, hvalid, hl⟩
      · rw [if_neg hvalid] at hl
        cases hl
        refine .inr (.inl ⟨?_, rfl, rfl⟩)
        simp [Option.filter, hvalid]

/-- **The exits of `load_scene`.** -/
theorem loadScene_cases (hl : c.loadScene cfg env fileName = .ok (c', out)) :
    ∃ c₁ c₂, c.stopProcessing cfg = .ok c₁ ∧ c₁.deleteAllSources cfg = .ok c₂ ∧
      (fileName = "" ∧ c' = c₂ ∧ out = .returned true ∨
        getFileExtension fileName = "" ∧ fileName ≠ "" ∧ c' = c₂ ∧ out = .returned false ∨
        ∃ c₃ out₃, fileName ≠ "" ∧ c₂.loadSceneFile cfg env fileName = .ok (c₃, out₃) ∧
          (out₃ = .returned true ∧ c₃.startProcessing cfg = .ok c' ∧ out = .returned true ∨
            out₃ ≠ .returned true ∧ c' = c₃ ∧ out = out₃)) := by
  obtain ⟨c₁, h₁, hl⟩ := bind_ok hl
  obtain ⟨c₂, h₂, hl⟩ := bind_ok hl
  refine ⟨c₁, c₂, h₁, h₂, ?_⟩
  by_cases hempty : fileName = ""
  · rw [if_pos hempty] at hl
    cases hl
    exact .inl ⟨hempty, rfl, rfl⟩
  · rw [if_neg hempty] at hl
    by_cases hext : getFileExtension fileName = ""
    · rw [if_pos hext] at hl
      cases hl
      exact .inr (.inl ⟨hext, hempty, rfl, rfl⟩)
    · rw [if_neg hext] at hl
      obtain ⟨⟨c₃, out₃⟩, h₃, hl⟩ := bind_ok hl
      refine .inr (.inr ⟨c₃, out₃, hempty, h₃, ?_⟩)
      match out₃, hl with
      | .returned true, hl =>
        obtain ⟨c₄, h₄, hl⟩ := bind_ok hl
        cases hl
        exact .inl ⟨rfl, h₄, rfl⟩
      | .returned false, hl =>
        cases hl
        exact .inr ⟨by decide, rfl, rfl⟩
      | .threw, hl =>
        cases hl
        exact .inr ⟨by decide, rfl, rfl⟩

/-! ## The views after load_scene -/

theorem createSpontaneousScene_views (h : c.Views cfg v w)
    (hl : c.createSpontaneousScene cfg env fileName = .ok (c', out)) :
    ∃ us, c'.Views cfg (v.applyAll us) (w.applyAll us) ∧ (out = .returned true →
      (v.applyAll us).state.referenceOrientation = (w.applyAll us).state.referenceOrientation) := by
  unfold createSpontaneousScene at hl
  split at hl
  · split at hl
    · cases hl
      exact ⟨[], h, fun he => by cases he⟩
    · cases hl
      exact ⟨[], h, fun he => by cases he⟩
    · obtain ⟨c₁, h₁, hl⟩ := bind_ok hl
      obtain ⟨c₂, h₂, hl⟩ := bind_ok hl
      obtain ⟨c₃, h₃, hl⟩ := bind_ok hl
      obtain ⟨c₄, h₄, hl⟩ := bind_ok hl
      cases hl
      have hv₁ := h.publish h₁ fun _ he => by cases he
      have heff₂ : Effect cfg (fun _ => True) c₁ c₂ := by
        unfold setAmplitudeReferenceDistance at h₂
        split at h₂
        · exact publish_effect h₂ trivial fun _ he => by cases he
        · cases h₂
          exact .refl
      obtain ⟨us₂, -, hv₂⟩ := heff₂ _ _ hv₁
      obtain ⟨us₄, -, hv₄⟩ := newSources_effect h₄ _ _ (loadReference_views hv₂ h₃)
      refine ⟨.masterVolume (FloatOps.dB2linear (FloatOps.ofInt (-6))) :: us₂ ++
        (referenceUpdates .origin ⟨FloatOps.ofInt 90⟩ ++ us₄), ?_, fun _ => ?_⟩
      all_goals simp only [View.applyAll_append]
      · exact hv₄
      · exact View.applyAll_orientation _ rfl
  · cases hl
    exact ⟨[], h, fun he => by cases he⟩

end Controller

/-- `v'` and `w'` come from `v` and `w` by the same updates, apart from a `distance` that only the
first one takes on; if there is one then the updates do not set the distance. -/
def LoadEffect (distance : Option F) (v w v' w' : View F) : Prop :=
  ∃ us us', (distance.isSome → ∀ u ∈ us ++ us', KeepsDistance u) ∧
    v' = (distance.elim (v.applyAll us) (v.applyAll us).setDistance).applyAll us' ∧
    w' = (w.applyAll us).applyAll us'

namespace LoadEffect

variable {distance : Option F} {v w v' w' : View F}

theorem cons (us : List (Update F)) (hus : ∀ u ∈ us, KeepsDistance u)
    (h : LoadEffect distance (v.applyAll us) (w.applyAll us) v' w') :
    LoadEffect distance v w v' w' := by
  obtain ⟨us₁, us₂, hkeep, hv, hw⟩ := h
  refine ⟨us ++ us₁, us₂, fun hd u hu => ?_, by rwa [View.applyAll_append],
    by rwa [View.applyAll_append]⟩
  rw [List.append_assoc] at hu
  rcases List.mem_append.1 hu with hu | hu
  · exact hus u hu
  · exact hkeep hd u hu

theorem snoc (us : List (Update F)) (hus : ∀ u ∈ us, KeepsDistance u)
    (h : LoadEffect distance v w v' w') :
    LoadEffect distance v w (v'.applyAll us) (w'.applyAll us) := by
  obtain ⟨us₁, us₂, hkeep, rfl, rfl⟩ := h
  refine ⟨us₁, us₂ ++ us, fun hd u hu => ?_, (View.applyAll_append _ _ _).symm,
    (View.applyAll_append _ _ _).symm⟩
  rw [← List.append_assoc] at hu
  rcases List.mem_append.1 hu with hu | hu
  · exact hkeep hd u hu
  · exact hus u hu

end LoadEffect

namespace Controller

variable {cfg : Config F} {c c' : Controller F} {v w : View F} {env : Environment F}
  {fileName : String} {out : Outcome}

theorem loadedDistance_none {fileName : String}
    (h : getFileExtension fileName = "asd" →
      cfg.xmlSchema = "" ∨ (env.loadFile fileName).filter (env.validate cfg.xmlSchema ·) = none) :
    loadedDistance cfg env fileName = none := by
  unfold loadedDistance
  split
  · rename_i hasd
    rcases h hasd.1 with hs | hd
    · exact absurd hs hasd.2
    · rw [hd]
      rfl
  · rfl

theorem loadSceneFile_views (h : c.Views cfg v w)
    (hl : c.loadSceneFile cfg env fileName = .ok (c', out)) :
    ∃ v' w', c'.Views cfg v' w' ∧
      (out = .returned true → v'.state.referenceOrientation = w'.state.referenceOrientation) ∧
      LoadEffect (loadedDistance cfg env fileName) v w v' w' := by
  unfold loadSceneFile at hl
  by_cases hasd : getFileExtension fileName = "asd"
  · rw [if_pos hasd] at hl
    rcases loadAsd_cases hl with ⟨doc, hdoc, hschema, hvalid, hl⟩ | ⟨hd, rfl, rfl⟩ | ⟨hs, rfl, rfl⟩
    · have hd : loadedDistance cfg env fileName =
          some (readAmplitudeReferenceDistance cfg doc) := by
        rw [loadedDistance, if_pos ⟨hasd, hschema⟩, hdoc, Option.filter, if_pos hvalid]
        rfl
      obtain ⟨us, hv', hout⟩ := loadDocument_views h hl
      refine ⟨_, _, hv', fun htrue => ?_, ?_⟩
      · rcases hout with ⟨hfalse, -⟩ | ⟨-, position, orientation, us', -, rfl, -⟩
        · rw [hfalse] at htrue
          cases htrue
        · rw [View.applyAll_append, View.applyAll_append]
          exact View.applyAll_orientation _ rfl
      · rw [hd]
        refine ⟨[.masterVolume (FloatOps.dB2linear (readVolume doc))], us, fun _ u hu => ?_, rfl, rfl⟩
        rcases List.mem_append.1 hu with hu | hu
        · rw [List.mem_singleton.1 hu]
          exact fun _ => rfl
        · rcases hout with ⟨-, rfl⟩ | ⟨-, position, orientation, us', -, rfl, hus⟩
          · cases hu
          · rcases List.mem_append.1 hu with hu | hu
            · simp only [referenceUpdates, List.mem_cons, List.not_mem_nil, or_false] at hu
              rcases hu with rfl | rfl | rfl | rfl <;> exact fun _ => rfl
            · exact (hus u hu).keepsDistance
    · rw [loadedDistance_none fun _ => .inr hd]
      exact ⟨v, w, h, fun he => (by cases he), [], [], fun hd => (by cases hd), rfl, rfl⟩
    · rw [loadedDistance_none fun _ => .inl hs]
      exact ⟨v, w, h, fun he => (by cases he), [], [], fun hd => (by cases hd), rfl, rfl⟩
  · rw [if_neg hasd] at hl
    obtain ⟨us, hv', hori⟩ := createSpontaneousScene_views h hl
    rw [loadedDistance_none fun he => absurd he hasd]
    exact ⟨_, _, hv', hori, us, [], fun hd => (by cases hd), rfl, rfl⟩

/-- **The views after `load_scene`.** When it has loaded a file then the orientations of the
reference are equal. -/
theorem loadScene_views (h : c.Views cfg v w)
    (hl : c.loadScene cfg env fileName = .ok (c', out)) :
    ∃ v' w', c'.Views cfg v' w' ∧
      (out = .returned true → fileName ≠ "" →
        v'.state.referenceOrientation = w'.state.referenceOrientation) ∧
      LoadEffect (loadedDistance cfg env fileName) v w v' w' := by
  obtain ⟨c₁, c₂, h₁, h₂, hl⟩ := loadScene_cases hl
  obtain ⟨us₁, hus₁, hv₁⟩ := stopProcessing_effect h₁ _ _ h
  obtain ⟨us₂, hus₂, hv₂⟩ := deleteAllSources_effect h₂ _ _ hv₁
  have hpre : ∀ {v' w'}, LoadEffect (loadedDistance cfg env fileName)
      ((v.applyAll us₁).applyAll us₂) ((w.applyAll us₁).applyAll us₂) v' w' →
      LoadEffect (loadedDistance cfg env fileName) v w v' w' := fun he =>
    (he.cons us₂ fun u hu => (hus₂ u hu).keepsDistance).cons us₁ fun u hu =>
      (hus₁ u hu).keepsDistance
  rcases hl with ⟨rfl, rfl, -⟩ | ⟨hext, -, rfl, rfl⟩ | ⟨c₃, out₃, hempty, h₃, hl⟩
  · refine ⟨_, _, hv₂, fun _ hne => absurd rfl hne, hpre ?_⟩
    rw [loadedDistance_none fun he => absurd he (by decide)]
    exact ⟨[], [], fun hd => (by cases hd), rfl, rfl⟩
  · refine ⟨_, _, hv₂, fun he => (by cases he), hpre ?_⟩
    rw [loadedDistance_none fun he => absurd (hext.symm.trans he) (by decide)]
    exact ⟨[], [], fun hd => (by cases hd), rfl, rfl⟩
  · obtain ⟨v₃, w₃, hv₃, hori, heff⟩ := loadSceneFile_views hv₂ h₃
    rcases hl with ⟨rfl, h₄, rfl⟩ | ⟨hne, rfl, rfl⟩
    · obtain ⟨us₄, hus₄, hv₄⟩ := startProcessing_effect h₄ _ _ hv₃
      exact ⟨_, _, hv₄, fun _ _ => View.applyAll_orientation _ (hori rfl),
        hpre (heff.snoc us₄ fun u hu => (hus₄ u hu).keepsDistance)⟩
    · exact ⟨_, _, hv₃, fun he => absurd he hne, hpre heff⟩

end Controller

end Ssr
