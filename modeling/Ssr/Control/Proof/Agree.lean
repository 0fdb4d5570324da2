import Ssr.Lib.Run
import Ssr.Control.Proof.LoadScene

/-!
# Scene and renderer agree

`always_agree_iff`: Scene and renderer agree after the construction of the Controller and after
every operation if and only if the constructor loads a file and no scene file sets the amplitude
reference distance to a new value. `linked_of_run` is what holds in any case. The step lemma is
`step_views`; what a step does to the equality of the two views is `LoadEffect.eq_iff`.
-/

set_option autoImplicit false

namespace Ssr

open Lib

variable {F : Type} [FloatOps F]

namespace View

def setOrientation (v : View F) (orientation : Orientation F) : View F :=
  { v with state := { v.state with referenceOrientation := orientation } }

theorem apply_setOrientation (v : View F) (u : Update F) (orientation : Orientation F) :
    ∃ orientation',
      (v.setOrientation orientation).apply u = (v.apply u).setOrientation orientation' := by
  cases u with
  | referenceOrientation o => exact ⟨o, rfl⟩
  | _ => exact ⟨orientation, rfl⟩

/-- Two views that are equal up to the orientation of the reference stay so. -/
theorem applyAll_setOrientation (us : List (Update F)) {v w : View F}
    (h : ∃ o, v = w.setOrientation o) : ∃ o, v.applyAll us = (w.applyAll us).setOrientation o := by
  refine View.applyAll_rel (R := fun v w => ∃ o, v = w.setOrientation o) ?_ h
  rintro u v w ⟨o, rfl⟩
  exact apply_setOrientation w u o

omit [FloatOps F] in
theorem eq_of_setOrientation {v w : View F} (h : ∃ o, v = w.setOrientation o)
    (ho : v.state.referenceOrientation = w.state.referenceOrientation) : v = w := by
  obtain ⟨o, rfl⟩ := h
  change o = w.state.referenceOrientation at ho
  rw [ho]
  rfl

/-- Equal up to the two components of the state that Scene and renderer need not agree on. -/
def Linked (v w : View F) : Prop :=
  ∃ orientation distance, v = (w.setOrientation orientation).setDistance distance

theorem Linked.applyAll (us : List (Update F)) {v w : View F} (h : Linked v w) :
    Linked (v.applyAll us) (w.applyAll us) := by
  refine View.applyAll_rel ?_ h
  rintro u v w ⟨o, d, rfl⟩
  cases u with
  | referenceOrientation o' => exact ⟨o', d, rfl⟩
  | amplitudeReferenceDistance d' => exact ⟨o, d', rfl⟩
  | _ => exact ⟨o, d, rfl⟩

theorem applyAll_distance {us : List (Update F)} (h : ∀ u ∈ us, KeepsDistance u) (v : View F) :
    (v.applyAll us).state.amplitudeReferenceDistance = v.state.amplitudeReferenceDistance :=
  applyAll_state (f := fun s => s.amplitudeReferenceDistance) us h v

end View

namespace LoadEffect

variable {distance : Option F} {v w v' w' : View F}

theorem refl : LoadEffect none v w v w := ⟨[], [], fun h => (by cases h), rfl, rfl⟩

theorem of_applyAll (us : List (Update F)) :
    LoadEffect none v w (v.applyAll us) (w.applyAll us) :=
  ⟨us, [], fun h => (by cases h), rfl, rfl⟩

theorem orientation (h : LoadEffect distance v w v' w')
    (ho : v.state.referenceOrientation = w.state.referenceOrientation) :
    v'.state.referenceOrientation = w'.state.referenceOrientation := by
  obtain ⟨us, us', -, rfl, rfl⟩ := h
  refine View.applyAll_orientation _ ?_
  cases distance with
  | none => exact View.applyAll_orientation _ ho
  | some d => exact View.applyAll_orientation us ho

theorem distance_right {d : F} (h : LoadEffect (some d) v w v' w') :
    w'.state.amplitudeReferenceDistance = w.state.amplitudeReferenceDistance := by
  obtain ⟨us, us', hkeep, -, rfl⟩ := h
  rw [← View.applyAll_append, View.applyAll_distance (hkeep rfl)]

theorem distance_left {d : F} (h : LoadEffect (some d) v w v' w') :
    v'.state.amplitudeReferenceDistance = d := by
  obtain ⟨us, us', hkeep, rfl, -⟩ := h
  exact View.applyAll_distance (fun u hu => hkeep rfl u (List.mem_append_right us hu)) _

theorem linked (h : LoadEffect distance v w v' w') (hvw : View.Linked v w) :
    View.Linked v' w' := by
  obtain ⟨us, us', -, rfl, rfl⟩ := h
  refine View.Linked.applyAll us' ?_
  obtain ⟨o, d, hus⟩ := View.Linked.applyAll us hvw
  cases distance with
  | none => exact ⟨o, d, hus⟩
  | some d' =>
    refine ⟨o, d', ?_⟩
    rw [Option.elim, hus]
    rfl

/-- **Equality of the views** survives unless the first one takes on a new distance. -/
theorem eq_iff (h : LoadEffect distance v w v' w') (hvw : ∃ o, v = w.setOrientation o)
    (ho : v'.state.referenceOrientation = w'.state.referenceOrientation) :
    v' = w' ↔ ∀ d, distance = some d → d = w.state.amplitudeReferenceDistance := by
  constructor
  · rintro rfl d rfl
    rw [← h.distance_left, h.distance_right]
  · intro hd
    refine View.eq_of_setOrientation ?_ ho
    obtain ⟨us, us', hkeep, rfl, rfl⟩ := h
    refine View.applyAll_setOrientation us' ?_
    have hus := View.applyAll_setOrientation us hvw
    cases distance with
    | none => exact hus
    | some d =>
      obtain ⟨o, hus⟩ := hus
      refine ⟨o, ?_⟩
      have hdist := View.applyAll_distance
        (fun u hu => hkeep rfl u (List.mem_append_left us' hu)) w
      rw [hd d rfl, ← hdist, Option.elim, hus]
      rfl

end LoadEffect

/-- The amplitude reference distance that an operation sets in the Scene alone. -/
def Op.distance (cfg : Config F) : Op F → Option F
  | .loadScene env fileName => loadedDistance cfg env fileName
  | _ => none

namespace Controller

variable {cfg : Config F} {c c' : Controller F} {v w : View F} {env : Environment F}

/-- Scene and renderer have the same sources with the same data and the same state, once all pending
commands have been executed. -/
def Agree (c : Controller F) : Prop :=
  ∃ rt, c.renderer.flushed = .ok rt ∧ c.scene.view = c.renderer.view rt

omit [FloatOps F] in
theorem Views.agree_iff (h : c.Views cfg v w) : c.Agree ↔ v = w := by
  obtain ⟨rfl, rt, hr, rfl⟩ := h
  constructor
  · rintro ⟨rt', hf, he⟩
    rw [hr.flushed] at hf
    cases hf
    exact he
  · exact fun he => ⟨rt, hr.flushed, he⟩

/-! ## Steps -/

theorem Effect.loadEffect {Q : Update F → Prop} (he : Effect cfg Q c c') (h : c.Views cfg v w) :
    ∃ v' w', c'.Views cfg v' w' ∧ LoadEffect none v w v' w' := by
  obtain ⟨us, -, h'⟩ := he v w h
  exact ⟨_, _, h', .of_applyAll us⟩

theorem execute_views (h : c.Views cfg v w) (hs : c.execute cfg = some c') :
    c'.Views cfg v w := by
  obtain ⟨hv, rt, hr, hw⟩ := h
  unfold Controller.execute Renderer.step at hs
  cases hp : c.renderer.pending with
  | nil =>
    simp only [hp] at hs
    cases hs
  | cons cmd cmds =>
    obtain ⟨rt₁, hc, h₁⟩ := hr.execute hp
    simp only [hp, hc] at hs
    cases hs
    exact ⟨hv, rt, h₁, hw⟩

/-- **The effect of a step** on the two views. -/
theorem step_views (h : c.Views cfg v w) {op : Op F} (hs : c.step cfg op = some c') :
    ∃ v' w', c'.Views cfg v' w' ∧ LoadEffect (op.distance cfg) v w v' w' := by
  have hpublish : ∀ u : Update F, (∀ id, u ≠ .newSource id) → c.publish cfg u = .ok c' →
      ∃ v' w', c'.Views cfg v' w' ∧ LoadEffect none v w v' w' := fun u hnew hu =>
    (publish_effect (Q := fun _ => True) hu trivial hnew).loadEffect h
  cases op with
  | newSource env a => exact (newSource_effect (toOption_some hs)).loadEffect h
  | deleteAllSources => exact (deleteAllSources_effect (toOption_some hs)).loadEffect h
  | startProcessing => exact (startProcessing_effect (toOption_some hs)).loadEffect h
  | stopProcessing => exact (stopProcessing_effect (toOption_some hs)).loadEffect h
  | setSourcePosition id position =>
    have hs := toOption_some hs
    unfold Controller.setSourcePosition at hs
    split at hs
    · cases hs
      exact ⟨v, w, h, .refl⟩
    · exact hpublish _ (fun _ he => by cases he) hs
  | setAmplitudeReferenceDistance dist =>
    have hs := toOption_some hs
    unfold Controller.setAmplitudeReferenceDistance at hs
    split at hs
    · exact hpublish _ (fun _ he => by cases he) hs
    · cases hs
      exact ⟨v, w, h, .refl⟩
  | loadScene env fileName =>
    have hs := toOption_some hs
    cases hl : c.loadScene cfg env fileName with
    | error f =>
      rw [hl] at hs
      cases hs
    | ok r =>
      rw [hl] at hs
      cases hs
      obtain ⟨v', w', h', -, he⟩ := loadScene_views h hl
      exact ⟨v', w', h', he⟩
  | execute => exact ⟨v, w, execute_views h hs, .refl⟩
  | _ =>
    simp only [Controller.step] at hs
    exact hpublish _ (fun _ he => by cases he) (toOption_some hs)

/-- What a step must not do. -/
def KeepsAgreement (cfg : Config F) (c : Controller F) (op : Op F) : Prop :=
  ∀ d, op.distance cfg = some d → d = c.scene.amplitudeReferenceDistance

theorem step_views_eq_iff {op : Op F} (h : ∃ v, c.Views cfg v v) (hs : c.step cfg op = some c') :
    (∃ v, c'.Views cfg v v) ↔ KeepsAgreement cfg c op := by
  obtain ⟨v, h⟩ := h
  obtain ⟨v', w', h', he⟩ := step_views h hs
  have hiff := he.eq_iff ⟨v.state.referenceOrientation, rfl⟩ (he.orientation rfl)
  have hdist : v.state.amplitudeReferenceDistance = c.scene.amplitudeReferenceDistance := by
    rw [← h.1]
    rfl
  rw [hdist] at hiff
  refine Iff.trans ⟨?_, ?_⟩ hiff
  · rintro ⟨v₁, h₁⟩
    have heq := h'.agree_iff.1 (h₁.agree_iff.2 rfl)
    exact heq
  · rintro rfl
    exact ⟨v', h'⟩

/-! ## Construction -/

omit [FloatOps F] in
theorem new_eq_some [FloatOps F] (h : new cfg env = some c) :
    loadScene cfg ⟨.new, .new cfg.renderer, []⟩ env cfg.sceneFileName =
      .ok (c, .returned true) := by
  unfold new at h
  split at h
  · rename_i c' hl
    cases h
    exact hl
  · cases h

theorem views_start :
    Views cfg ⟨.new, .new cfg.renderer, []⟩ ((View.mk (fun _ => none) RenderState.new).setOrientation
      ⟨FloatOps.ofInt 90⟩) ⟨fun _ => none, RenderState.new⟩ :=
  ⟨rfl, (Renderer.new cfg.renderer).rt, Renderer.ready_new cfg.renderer, rfl⟩

/-- **Scene and renderer are linked** in every reachable state: only the reference orientation and
the amplitude reference distance can differ. -/
theorem linked_of_run {ops : List (Op F)} (hnew : new cfg env = some c)
    (hrun : run (step cfg) c ops = some c') : ∃ v w, c'.Views cfg v w ∧ View.Linked v w := by
  refine (Reach.of_run (C := fun _ _ => True) hrun fun _ _ _ => trivial).inv
    (fun c => ∃ v w, c.Views cfg v w ∧ View.Linked v w) ?_ ?_
  · obtain ⟨v, w, hv, -, he⟩ := loadScene_views views_start (new_eq_some hnew)
    exact ⟨v, w, hv, he.linked ⟨⟨FloatOps.ofInt 90⟩, FloatOps.ofInt 3, rfl⟩⟩
  · rintro t u op ⟨v, w, ht, hvw⟩ - hs
    obtain ⟨v', w', hu, he⟩ := step_views ht hs
    exact ⟨v', w', hu, he.linked hvw⟩

/-- Without a scene file nothing is published for the reference. -/
theorem loadScene_empty_orientation (h : c.Views cfg v w) {out : Outcome}
    (hl : c.loadScene cfg env "" = .ok (c', out)) : ∃ v' w', c'.Views cfg v' w' ∧
      v'.state.referenceOrientation = v.state.referenceOrientation ∧
      w'.state.referenceOrientation = w.state.referenceOrientation := by
  obtain ⟨c₁, c₂, h₁, h₂, hl⟩ := loadScene_cases hl
  obtain ⟨us₁, hus₁, hv₁⟩ := stopProcessing_effect h₁ _ _ h
  obtain ⟨us₂, hus₂, hv₂⟩ := deleteAllSources_effect h₂ _ _ hv₁
  have hkeep : ∀ v : View F, ((v.applyAll us₁).applyAll us₂).state.referenceOrientation =
      v.state.referenceOrientation := by
    intro v
    rw [View.applyAll_state (f := fun s => s.referenceOrientation) us₂,
      View.applyAll_state (f := fun s => s.referenceOrientation) us₁]
    · intro u hu v
      obtain ⟨b, rfl⟩ := hus₁ u hu
      rfl
    · intro u hu v
      exact congrArg RenderState.referenceOrientation (hus₂ u hu v)
  rcases hl with ⟨-, rfl, -⟩ | ⟨-, hne, -⟩ | ⟨c₃, out₃, hne, -⟩
  · exact ⟨_, _, hv₂, hkeep v, hkeep w⟩
  · exact absurd rfl hne
  · exact absurd rfl hne

/-- The constructor loads a file, and one that does not set the distance to anything but 3. -/
def StartsAgreed (cfg : Config F) (env : Environment F) : Prop :=
  cfg.sceneFileName ≠ "" ∧
    ∀ d, loadedDistance cfg env cfg.sceneFileName = some d → d = FloatOps.ofInt 3

theorem agree_new_iff (h : new cfg env = some c) : c.Agree ↔ StartsAgreed cfg env := by
  by_cases hempty : cfg.sceneFileName = ""
  · refine iff_of_false ?_ fun hs => hs.1 hempty
    have hl := new_eq_some h
    rw [hempty] at hl
    obtain ⟨v, w, hv, hov, how⟩ := loadScene_empty_orientation views_start hl
    rw [hv.agree_iff]
    rintro rfl
    exact FloatOps.ninety_ne_zero (Orientation.mk.inj (hov.symm.trans how))
  · obtain ⟨v, w, hv, ho, he⟩ := loadScene_views views_start (new_eq_some h)
    rw [hv.agree_iff, he.eq_iff ⟨_, rfl⟩ (ho rfl hempty), StartsAgreed, and_iff_right hempty]
    rfl

/-! ## Runs -/

/-- **Scene and renderer agree** throughout a run if and only if the constructor has loaded a file
whose amplitude reference distance is 3, and no scene file that is loaded later changes it. -/
theorem always_agree_iff {ops : List (Op F)} (hnew : new cfg env = some c)
    (hrun : run (step cfg) c ops = some c') :
    Always (step cfg) Agree c ops ↔
      StartsAgreed cfg env ∧ AllSteps (step cfg) (KeepsAgreement cfg) c ops := by
  have hagree : ∀ pre t, run (step cfg) c pre = some t → (t.Agree ↔ ∃ v, t.Views cfg v v) := by
    intro pre t ht
    obtain ⟨v, w, hv, -⟩ := linked_of_run hnew ht
    rw [hv.agree_iff]
    constructor
    · rintro rfl
      exact ⟨v, hv⟩
    · rintro ⟨v', hv'⟩
      exact hv.agree_iff.1 (hv'.agree_iff.2 rfl)
  have halways := always_iff (P := fun c => ∃ v, c.Views cfg v v)
    (fun _ _ _ ht hs => step_views_eq_iff ht hs) hrun
  rw [← agree_new_iff hnew, hagree [] c rfl, ← halways]
  constructor
  · exact fun h pre post t hops ht => (hagree pre t ht).1 (h pre post t hops ht)
  · exact fun h pre post t hops ht => (hagree pre t ht).2 (h pre post t hops ht)

theorem always_agree_iff_mono : ∃ c c', new soundfileConfig monoEnvironment = some c ∧
    run (step soundfileConfig) c [.setMasterVolume 5] = some c' ∧
    (Always (step soundfileConfig) Agree c [.setMasterVolume 5] ↔
      StartsAgreed soundfileConfig monoEnvironment ∧
        AllSteps (step soundfileConfig) (KeepsAgreement soundfileConfig) c [.setMasterVolume 5]) :=
  ⟨_, _, rfl, rfl, always_agree_iff rfl rfl⟩

/-- Without a scene file the Scene starts with the reference orientation 90 and the renderer with
0. -/
theorem disagree_without_file :
    ¬ ∀ (cfg : Config ℤ) (env : Environment ℤ) (c c' : Controller ℤ) (ops : List (Op ℤ)),
      new cfg env = some c → run (step cfg) c ops = some c' → Always (step cfg) Agree c ops := by
  intro h
  have hstart := h { soundfileConfig with sceneFileName := "" } monoEnvironment _ _ [] rfl rfl
  obtain ⟨rt, hf, he⟩ := always_nil.1 hstart
  cases hf
  have hori := congrArg (fun v => v.state.referenceOrientation.azimuth) he
  change (90 : ℤ) = 0 at hori
  cases hori

end Controller

end Ssr
