import Ssr.Control.PublishThreads
import Ssr.Control.Proof.Views

/-!
# Publishing from two threads

`Scene.held_handle` and `View.held_apply` reduce a call to its effect on each field, and the value
of a field depends only on the calls that touch it (`effectAll_filter`). So the copies of two
subscribers agree if these calls came in the same order, which they do unless one publish overtakes
another one of the same field (`publishes_in_order`). Nothing in `_publish` prevents that
(`gain_overtaken`).
-/

set_option autoImplicit false

namespace Ssr

open Lib Broadcast

variable {F : Type} [FloatOps F]

/-! ## The value of a field -/

theorem Update.effect_of_not_touches {u : Update F} {k : Field} (h : ¬ u.touches k)
    (value : Option (Update F)) : u.effect k value = value := by
  cases u <;> cases k <;>
    simp_all [touches, effect, field, Field.OfSource, Field.OfSomeSource]

theorem Update.effect_of_field {u : Update F} {k₀ : Field} (h : u.field = some k₀) (k : Field)
    (value : Option (Update F)) :
    u.effect k value = if k = k₀ then value.map fun _ => u else value := by
  have h' : u.effect k value = if u.field = some k then value.map fun _ => u else value := by
    cases u <;> first | rfl | cases h
  simp only [h', h, Option.some.injEq, eq_comm]

def Update.effectAll (us : List (Update F)) (k : Field) (value : Option (Update F)) :
    Option (Update F) := us.foldl (fun v u => u.effect k v) value

theorem Update.effectAll_filter (us : List (Update F)) (k : Field) (value : Option (Update F)) :
    effectAll us k value = effectAll (us.filter fun u => u.touches k) k value := by
  induction us generalizing value with
  | nil => rfl
  | cons u us ih =>
    rw [List.filter_cons]
    split
    · exact ih (u.effect k value)
    · rename_i h
      rw [← ih value]
      exact congrArg (effectAll us k) (effect_of_not_touches h value)

theorem Scene.held_setSourceMember (s : Scene F) {id : ℕ} {assign : Source F → Source F}
    {f : SourceField} {u : Update F} (hu : u.field = some (.source id f))
    (h : ∀ a g, (assign a).held id g = if g = f then u else a.held id g) (k : Field) :
    (s.setSourceMember id assign).held k = u.effect k (s.held k) := by
  rw [Update.effect_of_field hu]
  cases k with
  | state g => cases g <;> simp [setSourceMember, held]
  | source i g =>
    simp only [setSourceMember, held, OrdMap.find_modify, Field.source.injEq]
    by_cases hi : i = id
    · subst hi
      rw [if_pos rfl]
      by_cases hg : g = f <;> simp [hg, h, Function.comp_def]
    · simp [hi]

/-- **The Scene**: every call has its effect on every field. -/
theorem Scene.held_handle (s : Scene F) (u : Update F) (k : Field) :
    (s.handle u).held k = u.effect k (s.held k) := by
  cases u with
  | newSource id =>
    cases k with
    | state f => cases f <;> (simp only [handle, newSource]; split <;> rfl)
    | source i f =>
      simp only [handle, newSource, Update.effect, held]
      split
      · rename_i source hid
        by_cases hi : i = id
        · simp [hi, hid]
        · simp [hi]
      · rename_i hid
        by_cases hi : i = id
        · simp [OrdMap.find_insert, hi, hid]
        · simp [OrdMap.find_insert, hi]
  | deleteSource id =>
    cases k with
    | state f => cases f <;> rfl
    | source i f =>
      simp only [handle, deleteSource, Update.effect, held, OrdMap.find_erase]
      split <;> rfl
  | deleteAllSources =>
    cases k with
    | state f => cases f <;> rfl
    | source i f => rfl
  | sourcePosition | sourceOrientation | sourceGain | sourceMute | sourceName
  | sourcePropertiesFile | sourceModel | sourcePortName | sourceFileName | sourceFileChannel
  | sourcePositionFixed | sourceFileLength =>
    exact s.held_setSourceMember rfl (fun a g => by cases g <;> rfl) k
  | referencePosition | referenceOrientation | referenceOffsetPosition | referenceOffsetOrientation
  | masterVolume | amplitudeReferenceDistance | processingState =>
    cases k with
    | source => rfl
    | state f => cases f <;> rfl

theorem View.held_setSource (v : View F) {id : ℕ} {value : SourceValue F} {f : SourceField}
    {u : Update F} (hu : u.field = some (.source id f))
    (h : ∀ d g, (value.assign d).held id g = if g = f then some u else d.held id g)
    (hf : ∀ d : SourceData F, (d.held id f).isSome) (k : Field) :
    (v.setSource id value).held k = u.effect k (v.held k) := by
  rw [Update.effect_of_field hu]
  cases k with
  | state g => cases g <;> simp [setSource, held]
  | source i g =>
    simp only [setSource, held, Field.source.injEq]
    by_cases hi : i = id
    · subst hi
      cases v.sources i with
      | none => simp
      | some d =>
        by_cases hg : g = f
        · obtain ⟨x, hx⟩ := Option.isSome_iff_exists.1 (hf d)
          simp [hg, h, hx]
        · simp [hg, h]
    · simp [hi]

/-- A call that sets a field which the renderer does not have. -/
theorem Update.effect_of_not_inRenderer {u : Update F} {k₀ k : Field} (hu : u.field = some k₀)
    (hk₀ : k₀.InRenderer = false) (hk : k.InRenderer) (value : Option (Update F)) :
    u.effect k value = value := by
  rw [effect_of_field hu, if_neg]
  rintro rfl
  rw [hk₀] at hk
  cases hk

/-- **The renderer**: every call has its effect on the fields that the renderer has. -/
theorem View.held_apply (v : View F) (u : Update F) {k : Field} (hk : k.InRenderer) :
    (v.apply u).held k = u.effect k (v.held k) := by
  cases u with
  | newSource id =>
    cases k with
    | state f => cases f <;> rfl
    | source i f =>
      simp only [apply, newSource, Update.effect, held]
      by_cases hi : i = id
      · subst hi
        cases hs : v.sources i with
        | none =>
          cases f <;> first
            | simp [SourceData.held, SourceData.new, Source.held, Source.new]; done
            | cases hk
        | some d => cases f <;> first | simp [SourceData.held]; done | cases hk
      · simp [hi]
  | deleteSource id =>
    cases k with
    | state f => cases f <;> rfl
    | source i f =>
      simp only [apply, deleteSource, Update.effect, held]
      split <;> rfl
  | deleteAllSources =>
    cases k with
    | state f => cases f <;> rfl
    | source i f => rfl
  | sourcePosition | sourceOrientation | sourceGain | sourceMute | sourceModel =>
    exact v.held_setSource rfl (fun d g => by cases g <;> rfl) (fun d => rfl) k
  | sourceName | sourcePropertiesFile | sourcePortName | sourceFileName | sourceFileChannel
  | sourcePositionFixed | sourceFileLength =>
    exact (Update.effect_of_not_inRenderer rfl rfl hk _).symm
  | referencePosition | referenceOrientation | referenceOffsetPosition | referenceOffsetOrientation
  | masterVolume | amplitudeReferenceDistance | processingState =>
    cases k with
    | source => rfl
    | state f => cases f <;> rfl

/-! ## A sequence of calls -/

theorem Scene.held_handleAll (s : Scene F) (us : List (Update F)) (k : Field) :
    (s.handleAll us).held k = Update.effectAll us k (s.held k) := by
  induction us generalizing s with
  | nil => rfl
  | cons u us ih =>
    rw [handleAll, List.foldl_cons, Update.effectAll, List.foldl_cons, ← s.held_handle u k]
    exact ih (s.handle u)

theorem View.held_applyAll (v : View F) (us : List (Update F)) {k : Field} (hk : k.InRenderer) :
    (v.applyAll us).held k = Update.effectAll us k (v.held k) := by
  induction us generalizing v with
  | nil => rfl
  | cons u us ih =>
    rw [applyAll, List.foldl_cons, Update.effectAll, List.foldl_cons, ← v.held_apply u hk]
    exact ih (v.apply u)

/-! ## Runs -/

namespace Publishing

variable {n : ℕ} {s : Publishing F} {es : List (Event Thread (Update F))}

omit [FloatOps F] in
theorem sameOrder_of_ordered (h : Ordered Update.touches n s) : SameOrder n s :=
  fun _ _ k hi hj => List.prefix_or_prefix_of_prefix (h.isPrefix hi k) (h.isPrefix hj k)

/-- The effect on a field is that of the calls that touch it, which all subscribers have got. -/
theorem effectAll_eq (h : Ordered Update.touches n s) (hidle : s.Idle) {i j : ℕ} (hi : i < n)
    (hj : j < n) (k : Field) (value : Option (Update F)) :
    Update.effectAll (s.received i) k value = Update.effectAll (s.received j) k value := by
  rw [Update.effectAll_filter, Update.effectAll_filter (s.received j)]
  have hlog := (h.log_eq hidle hi k).trans (h.log_eq hidle hj k).symm
  simp only [State.log] at hlog
  rw [hlog]

theorem sameValues_of_ordered (h : Ordered Update.touches n s) (hidle : s.Idle) :
    SameValues n s := by
  intro i j k hi hj
  refine ⟨fun scene client heq => ?_, fun hk scene renderer heq => ?_⟩
  · rw [Scene.held_handleAll, Scene.held_handleAll, heq, effectAll_eq h hidle hi hj]
  · rw [Scene.held_handleAll, View.held_applyAll _ _ hk, heq, effectAll_eq h hidle hi hj]

/-- **Updates arrive in the same order** at all subscribers, and once no publish is in progress they
all have the same values: in every run in which no publish overtakes an older one of the same
field. -/
theorem publishes_in_order (hrun : run (step n) State.init es = some s)
    (horder : AllSteps (step n) (InOrder n) State.init es) :
    SameOrder n s ∧ (s.Idle → SameValues n s) := by
  have h : Ordered Update.touches n s :=
    horder.inv (Ordered Update.touches n) .init (fun _ _ _ h hc hs => h.step hc hs) hrun
  exact ⟨sameOrder_of_ordered h, sameValues_of_ordered h⟩

/-- Both threads set the gain of source 1, the network thread stays one call behind the GUI. -/
theorem publishes_in_order_behind :
    ∃ s : Publishing ℤ,
      run (step 2) State.init [.start .gui (.sourceGain 1 2), .start .network (.sourceGain 1 3),
        .proceed .gui, .proceed .network, .proceed .gui, .proceed .network] = some s ∧
      SameOrder 2 s ∧ (s.Idle → SameValues 2 s) := by
  obtain ⟨s, hs⟩ : ∃ s : Publishing ℤ,
      run (step 2) State.init [.start .gui (.sourceGain 1 2), .start .network (.sourceGain 1 3),
        .proceed .gui, .proceed .network, .proceed .gui, .proceed .network] = some s := ⟨_, rfl⟩
  refine ⟨s, hs, publishes_in_order hs ?_⟩
  refine (allSteps_cons rfl).2 ⟨trivial, (allSteps_cons rfl).2 ⟨trivial, (allSteps_cons rfl).2
    ⟨?_, (allSteps_cons rfl).2 ⟨?_, (allSteps_cons rfl).2 ⟨?_, (allSteps_cons rfl).2
      ⟨?_, allSteps_nil⟩⟩⟩⟩⟩⟩
  all_goals
    intro p hp _ u q _ hq _ _ hbefore
    cases hp
    cases u <;> cases hq <;>
      first
        | exact of_decide_eq_true rfl
        | exact absurd hbefore.2.2 (of_decide_eq_false rfl)

/-- The network thread makes both of its calls (gain 2) between those of the GUI (gain 3): the Scene
keeps 2 and the renderer 3. -/
theorem gain_overtaken :
    ∃ s : Publishing ℤ,
      run (step 2) State.init [.start .gui (.newSource 1), .proceed .gui, .proceed .gui,
        .proceed .gui, .start .gui (.sourceGain 1 3), .proceed .gui,
        .start .network (.sourceGain 1 2), .proceed .network, .proceed .network,
        .proceed .network, .proceed .gui, .proceed .gui] = some s ∧
      s.Idle ∧ ¬ SameOrder 2 s ∧ ¬ SameValues 2 s := by
  refine ⟨_, rfl, fun t => by cases t <;> rfl, fun h => ?_, fun h => ?_⟩
  · exact absurd (h 0 1 (.source 1 .gain) (by decide) (by decide)) (by decide)
  · have hv := (h 0 1 (.source 1 .gain) (by decide) (by decide)).1 .new .new rfl
    exact absurd hv (by decide)

end Publishing

end Ssr
