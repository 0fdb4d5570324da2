import Ssr.Control.Controller
import Ssr.Control.View

/-!
# The effect of the Controller's operations on both views

`Effect cfg Q c c'`: going from `c` to `c'`, Scene and renderer apply the same updates to their
views, all of which meet `Q`. Every operation that does not touch the Scene alone has such an effect
(`publish_effect`), and so has the part of `load_scene` that makes the sources (`loadSources_effect`).
-/

set_option autoImplicit false

namespace Ssr

open Lib

variable {F : Type}

theorem bind_ok {ε α β : Type} {x : Except ε α} {f : α → Except ε β} {b : β}
    (h : (x >>= f) = .ok b) : ∃ a, x = .ok a ∧ f a = .ok b := by
  cases x with
  | error e => cases h
  | ok a => exact ⟨a, rfl, h⟩

theorem toOption_some {ε α : Type} {x : Except ε α} {a : α} (h : x.toOption = some a) :
    x = .ok a := by
  cases x with
  | error e => cases h
  | ok b =>
    cases h
    rfl

namespace View

variable [FloatOps F]

theorem applyAll_append (v : View F) (us us' : List (Update F)) :
    v.applyAll (us ++ us') = (v.applyAll us).applyAll us' := List.foldl_append

/-- A state component that no update of the list changes. -/
theorem applyAll_state {α : Type} {f : RenderState F → α} (us : List (Update F))
    (h : ∀ u ∈ us, ∀ v : View F, f (v.apply u).state = f v.state) (v : View F) :
    f (v.applyAll us).state = f v.state := by
  induction us generalizing v with
  | nil => rfl
  | cons u us ih =>
    exact (ih (fun u' hu' => h u' (List.mem_cons_of_mem u hu')) (v.apply u)).trans
      (h u List.mem_cons_self v)

/-- A relation that each update keeps. -/
theorem applyAll_rel {R : View F → View F → Prop}
    (h : ∀ u v w, R v w → R (v.apply u) (w.apply u)) {us : List (Update F)} {v w : View F}
    (hvw : R v w) : R (v.applyAll us) (w.applyAll us) := by
  induction us generalizing v w with
  | nil => exact hvw
  | cons u us ih => exact ih (h u v w hvw)

theorem newSource_newSource (v : View F) (id : ℕ) :
    (v.newSource id).newSource id = v.newSource id := by
  refine View.ext (funext fun k => ?_) rfl
  by_cases hk : k = id <;> simp [newSource, hk]

end View

/-- The update does not change the state. -/
def OnSources [FloatOps F] (u : Update F) : Prop := ∀ v : View F, (v.apply u).state = v.state

/-- The update sets the processing state. -/
def OnProcessing (u : Update F) : Prop := ∃ b, u = .processingState b

namespace Controller

/-- The Scene has the view `v` and the renderer, all commands executed, the view `w`. -/
def Views (cfg : Config F) (c : Controller F) (v w : View F) : Prop :=
  c.scene.view = v ∧ ∃ rt, Renderer.Ready cfg.renderer c.renderer rt ∧ c.renderer.view rt = w

/-- The first update creates the source in the Scene, no other does. -/
theorem newSourceUpdates_eq (a : SourceArgs F) (id : ℕ) (portName fileName : String)
    (fileLength : ℤ) : ∃ us, newSourceUpdates a id portName fileName fileLength =
      .newSource id :: us ∧ ∀ u ∈ us, ∀ id', u ≠ .newSource id' := by
  refine ⟨(newSourceUpdates a id portName fileName fileLength).tail, rfl, fun u hu id' he => ?_⟩
  subst he
  simp only [newSourceUpdates, List.cons_append, List.nil_append, List.tail_cons, List.mem_cons,
    List.mem_append, reduceCtorEq, List.not_mem_nil, or_false, false_or] at hu
  split at hu
  · simp at hu
  · cases hu

variable [FloatOps F]

def Effect (cfg : Config F) (Q : Update F → Prop) (c c' : Controller F) : Prop :=
  ∀ v w, c.Views cfg v w → ∃ us, (∀ u ∈ us, Q u) ∧ c'.Views cfg (v.applyAll us) (w.applyAll us)

variable {cfg : Config F} {c c' c'' : Controller F} {v w : View F} {Q Q' : Update F → Prop}
  {env : Environment F}

namespace Effect

theorem refl : Effect cfg Q c c := fun _ _ h => ⟨[], fun _ hu => (by cases hu), h⟩

theorem trans (h : Effect cfg Q c c') (h' : Effect cfg Q c' c'') : Effect cfg Q c c'' := by
  intro v w hvw
  obtain ⟨us, hus, hvw'⟩ := h v w hvw
  obtain ⟨us', hus', hvw''⟩ := h' _ _ hvw'
  refine ⟨us ++ us', fun u hu => ?_, ?_⟩
  · rcases List.mem_append.1 hu with hu | hu
    · exact hus u hu
    · exact hus' u hu
  · rwa [View.applyAll_append, View.applyAll_append]

theorem mono (h : Effect cfg Q c c') (hQ : ∀ u, Q u → Q' u) : Effect cfg Q' c c' := by
  intro v w hvw
  obtain ⟨us, hus, hvw'⟩ := h v w hvw
  exact ⟨us, fun u hu => hQ u (hus u hu), hvw'⟩

/-- The audio player is in neither view. -/
theorem of_views (h : ∀ v w, c.Views cfg v w → c'.Views cfg v w) : Effect cfg Q c c' :=
  fun v w hvw => ⟨[], fun _ hu => (by cases hu), h v w hvw⟩

end Effect

/-! ## Publishing -/

theorem Views.publish (h : c.Views cfg v w) {u : Update F} (hu : c.publish cfg u = .ok c')
    (hnew : ∀ id, u = .newSource id → (w.sources id).isSome) :
    c'.Views cfg (v.apply u) (w.apply u) := by
  obtain ⟨rfl, rt, hr, rfl⟩ := h
  obtain ⟨r', hr', hc'⟩ := bind_ok hu
  cases hc'
  obtain ⟨rt', h', hview⟩ := hr.view_handle hr' fun id hid => by
    simpa [Renderer.view] using hnew id hid
  exact ⟨Scene.view_handle c.scene u, rt', h', hview⟩

theorem publish_effect {u : Update F} (hu : c.publish cfg u = .ok c') (hQ : Q u)
    (hnew : ∀ id, u ≠ .newSource id) : Effect cfg Q c c' := by
  intro v w h
  refine ⟨[u], fun u' hu' => ?_, h.publish hu fun id hid => absurd hid (hnew id)⟩
  rw [List.mem_singleton.1 hu']
  exact hQ

theorem publishAll_effect {us : List (Update F)} (hus : publishAll cfg us c = .ok c')
    (hQ : ∀ u ∈ us, Q u) (hnew : ∀ u ∈ us, ∀ id, u ≠ .newSource id) : Effect cfg Q c c' := by
  induction us generalizing c with
  | nil =>
    cases hus
    exact .refl
  | cons u us ih =>
    obtain ⟨c₁, h₁, h₂⟩ := bind_ok hus
    have hu := List.mem_cons_self (a := u) (l := us)
    exact (publish_effect h₁ (hQ u hu) (hnew u hu)).trans
      (ih h₂ (fun u' hu' => hQ u' (List.mem_cons_of_mem u hu'))
        fun u' hu' => hnew u' (List.mem_cons_of_mem u hu'))

theorem deleteAllSources_effect (h : c.deleteAllSources cfg = .ok c') :
    Effect cfg OnSources c c' := by
  obtain ⟨c₁, h₁, hc'⟩ := bind_ok h
  cases hc'
  exact (publish_effect h₁ (fun _ => rfl) (fun _ he => by cases he)).trans
    (.of_views fun _ _ hvw => hvw)

theorem stopProcessing_effect (h : c.stopProcessing cfg = .ok c') :
    Effect cfg OnProcessing c c' := by
  unfold stopProcessing at h
  split at h
  · exact publish_effect h ⟨_, rfl⟩ fun _ he => by cases he
  · cases h
    exact .refl

theorem startProcessing_effect (h : c.startProcessing cfg = .ok c') :
    Effect cfg OnProcessing c c' := by
  unfold startProcessing at h
  split at h
  · exact publish_effect h ⟨_, rfl⟩ fun _ he => by cases he
  · cases h
    exact .refl

/-! ## New sources -/

theorem newSourceUpdates_onSources (a : SourceArgs F) (id : ℕ) (portName fileName : String)
    (fileLength : ℤ) : ∀ u ∈ newSourceUpdates a id portName fileName fileLength, OnSources u := by
  intro u hu
  simp only [newSourceUpdates, List.mem_append, List.mem_cons, List.not_mem_nil, or_false] at hu
  rcases hu with ((rfl | rfl | rfl | rfl | rfl | rfl | rfl | rfl | rfl) | hu) | rfl | rfl | rfl
  case inl.inr =>
    split at hu
    · simp only [List.mem_cons, List.not_mem_nil, or_false] at hu
      rcases hu with rfl | rfl <;> exact fun _ => rfl
    · cases hu
  all_goals exact fun _ => rfl

theorem addSource_effect {a : SourceArgs F} {portName fileName : String} {fileLength : ℤ}
    (h : c.addSource cfg a portName fileName fileLength = .ok c') : Effect cfg OnSources c c' := by
  rintro v w ⟨hv, rt, hr, hw⟩
  unfold Controller.addSource at h
  by_cases hp : Renderer.Fails cfg.renderer a.propertiesFile
  · obtain ⟨r', rt', e, he, h', -, hview⟩ :=
      hr.view_addSource_fails (p := { connectTo := portName, propertiesFile := a.propertiesFile }) hp
    simp only [he] at h
    cases h
    exact ⟨[], fun _ hu => (by cases hu), hv, rt', h', hview.trans hw⟩
  · obtain ⟨r', rt', he, h', -, hsome, hview⟩ :=
      hr.view_addSource (p := { connectTo := portName, propertiesFile := a.propertiesFile }) hp
    simp only [he] at h
    obtain ⟨us, hus, hnew⟩ := newSourceUpdates_eq a (c.renderer.highestId + 1) portName
      fileName fileLength
    have hon := newSourceUpdates_onSources a (c.renderer.highestId + 1) portName fileName
      fileLength
    rw [hus] at h hon
    obtain ⟨c₁, h₁, h₂⟩ := bind_ok h
    rw [hw] at hview
    have hviews : { c with renderer := r' }.Views cfg v (w.newSource (c.renderer.highestId + 1)) :=
      ⟨hv, rt', h', hview⟩
    have hviews₁ := hviews.publish h₁ fun id hid => by
      cases hid
      simp [View.newSource]
    obtain ⟨us', hus', hviews₂⟩ := publishAll_effect h₂
      (fun u hu => hon u (List.mem_cons_of_mem _ hu)) hnew _ _ hviews₁
    refine ⟨.newSource (c.renderer.highestId + 1) :: us', fun u hu => ?_, ?_⟩
    · rcases List.mem_cons.1 hu with rfl | hu
      · exact fun _ => rfl
      · exact hus' u hu
    · rwa [show (w.newSource _).apply (.newSource _) = w.apply (.newSource _) from
        w.newSource_newSource _] at hviews₂

theorem newSource_effect {a : SourceArgs F} (h : c.newSource cfg env a = .ok c') :
    Effect cfg OnSources c c' := by
  unfold newSource at h
  split at h
  · cases h
  · split at h
    · split at h
      · let player := (getPortName env c.audioPlayer a.fileOrPortName a.channel).1
        have hplayer : Effect cfg OnSources c { c with audioPlayer := player } :=
          .of_views fun _ _ hvw => hvw
        exact hplayer.trans (addSource_effect h)
      · cases h
        exact .refl
    · exact addSource_effect h

theorem newSources_effect {as : List (SourceArgs F)} (h : newSources cfg env as c = .ok c') :
    Effect cfg OnSources c c' := by
  induction as generalizing c with
  | nil =>
    cases h
    exact .refl
  | cons a as ih =>
    obtain ⟨c₁, h₁, h₂⟩ := bind_ok h
    exact (newSource_effect h₁).trans (ih h₂)

theorem loadSources_effect {fileName : String} {nodes : List Node}
    (h : loadSources cfg env fileName nodes c = .ok c') : Effect cfg OnSources c c' := by
  induction nodes generalizing c with
  | nil =>
    cases h
    exact .refl
  | cons node nodes ih =>
    obtain ⟨a, -, h⟩ := bind_ok h
    cases a with
    | none => exact ih h
    | some a =>
      obtain ⟨c₁, h₁, h₂⟩ := bind_ok h
      exact (newSource_effect h₁).trans (ih h₂)

end Controller

end Ssr
