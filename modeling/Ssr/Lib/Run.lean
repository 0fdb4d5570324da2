import Mathlib.Data.List.Induction

/-!
# Runs of a labelled step function

A system is a partial step function `step : σ → α → Option σ`; `none` means that the action is not
enabled. `run` executes a list of actions, `Reach C` is reachability by steps that all meet `C` (`C`
may look at the state before the step and at the action). An invariant is proved once per step and
holds in every reached state (`Reach.inv`). `run_iff` and `always_iff` do the same for equivalences,
and `run_lockstep` relates the runs of two systems.
-/

set_option autoImplicit false

namespace Lib

variable {σ α : Type*}

section
variable (step : σ → α → Option σ)

/-- The state after the actions `as`, if every one of them is enabled. -/
def run : σ → List α → Option σ
  | s, [] => some s
  | s, a :: as => (step s a).bind fun s' => run s' as

/-- `t` is reached from `s` by steps that all meet `C`. -/
inductive Reach (C : σ → α → Prop) (s : σ) : σ → Prop
  | refl : Reach C s s
  | tail {t u : σ} {a : α} : Reach C s t → C t a → step t a = some u → Reach C s u

end

variable {step : σ → α → Option σ} {C D : σ → α → Prop} {s t u : σ}

@[simp] theorem run_nil : run step s [] = some s := rfl

theorem run_cons {a : α} {as : List α} :
    run step s (a :: as) = (step s a).bind fun s' => run step s' as := rfl

theorem run_append {as bs : List α} :
    run step s (as ++ bs) = (run step s as).bind fun s' => run step s' bs := by
  induction as generalizing s with
  | nil => rfl
  | cons a as ih =>
    simp only [List.cons_append, run_cons]
    cases step s a with
    | none => rfl
    | some s' => exact ih

theorem run_snoc {a : α} {as : List α} :
    run step s (as ++ [a]) = (run step s as).bind fun s' => step s' a := by
  rw [run_append]
  congr 1
  funext s'
  simp only [run_cons, run_nil]
  cases step s' a <;> rfl

/-- `C` holds at every step of the run of `as` from `s`. -/
def AllSteps (step : σ → α → Option σ) (C : σ → α → Prop) (s : σ) (as : List α) : Prop :=
  ∀ pre a post t, as = pre ++ a :: post → run step s pre = some t → C t a

theorem allSteps_nil : AllSteps step C s [] := by
  intro pre a post t has
  exact absurd has.symm (by simp)

theorem allSteps_cons {a : α} {as : List α} (hs : step s a = some t) :
    AllSteps step C s (a :: as) ↔ C s a ∧ AllSteps step C t as := by
  constructor
  · intro h
    refine ⟨h [] a as s rfl rfl, fun pre b post u has hu => ?_⟩
    refine h (a :: pre) b post u (by rw [has, List.cons_append]) ?_
    rw [run_cons, hs]
    exact hu
  · rintro ⟨ha, h⟩ pre b post u has hu
    cases pre with
    | nil =>
      obtain ⟨rfl, rfl⟩ := List.cons.inj has
      cases hu
      exact ha
    | cons c pre =>
      obtain ⟨rfl, rfl⟩ := List.cons.inj has
      rw [run_cons, hs] at hu
      exact h pre b post u rfl hu

theorem allSteps_cons_iff {a : α} {as : List α} :
    AllSteps step C s (a :: as) ↔ C s a ∧ ∀ t ∈ step s a, AllSteps step C t as := by
  cases hs : step s a with
  | some t => simp [allSteps_cons hs]
  | none =>
    refine ⟨fun h => ⟨h [] a as s rfl rfl, by simp⟩, fun h pre b post u has hu => ?_⟩
    cases pre with
    | nil =>
      obtain ⟨rfl, rfl⟩ := List.cons.inj has
      cases hu
      exact h.1
    | cons c pre =>
      obtain ⟨rfl, rfl⟩ := List.cons.inj has
      rw [run_cons, hs] at hu
      cases hu

instance decidableAllSteps [∀ s a, Decidable (C s a)] :
    ∀ (s : σ) (as : List α), Decidable (AllSteps step C s as)
  | _, [] => isTrue allSteps_nil
  | _, _ :: as =>
    have : ∀ t, Decidable (AllSteps step C t as) := fun t => decidableAllSteps t as
    decidable_of_iff _ allSteps_cons_iff.symm

/-- An invariant of the steps that meet `C`. -/
theorem AllSteps.inv (P : σ → Prop) {as : List α} (h : AllSteps step C s as) (h0 : P s)
    (hstep : ∀ t u a, P t → C t a → step t a = some u → P u) (hrun : run step s as = some u) :
    P u := by
  induction as generalizing s with
  | nil =>
    cases hrun
    exact h0
  | cons a as ih =>
    rw [run_cons, Option.bind_eq_some_iff] at hrun
    obtain ⟨t, ht, hu⟩ := hrun
    obtain ⟨hc, hall⟩ := (allSteps_cons ht).1 h
    exact ih hall (hstep s t a h0 hc ht) hu

/-- If a step keeps `P` exactly when it meets `C`, then so does a run. -/
theorem run_iff {P : σ → Prop} (hstep : ∀ t u a, step t a = some u → (P u ↔ P t ∧ C t a)) {as : List α}
    (h : run step s as = some u) : P u ↔ P s ∧ AllSteps step C s as := by
  induction as generalizing s with
  | nil =>
    cases h
    exact ⟨fun hp => ⟨hp, allSteps_nil⟩, And.left⟩
  | cons a as ih =>
    rw [run_cons, Option.bind_eq_some_iff] at h
    obtain ⟨t, ht, hu⟩ := h
    rw [ih hu, hstep s t a ht, allSteps_cons ht, and_assoc]

/-- `P` holds in every state that the run of `as` goes through. -/
def Always (step : σ → α → Option σ) (P : σ → Prop) (s : σ) (as : List α) : Prop :=
  ∀ pre post t, as = pre ++ post → run step s pre = some t → P t

theorem always_nil {P : σ → Prop} : Always step P s [] ↔ P s := by
  constructor
  · exact fun h => h [] [] s rfl rfl
  · intro h pre post t has ht
    obtain ⟨rfl, -⟩ := List.append_eq_nil_iff.1 has.symm
    cases ht
    exact h

theorem always_cons {P : σ → Prop} {a : α} {as : List α} (hs : step s a = some t) :
    Always step P s (a :: as) ↔ P s ∧ Always step P t as := by
  constructor
  · intro h
    refine ⟨h [] (a :: as) s rfl rfl, fun pre post u has hu => ?_⟩
    refine h (a :: pre) post u (by rw [has, List.cons_append]) ?_
    rw [run_cons, hs]
    exact hu
  · rintro ⟨hp, h⟩ pre post u has hu
    cases pre with
    | nil =>
      cases hu
      exact hp
    | cons b pre =>
      obtain ⟨rfl, rfl⟩ := List.cons.inj has
      rw [run_cons, hs] at hu
      exact h pre post u rfl hu

/-- If a step from a state with `P` keeps `P` exactly when it meets `C`, then `P` holds throughout a
run exactly when it holds at the start and every step meets `C`. -/
theorem always_iff {P : σ → Prop} (hstep : ∀ t u a, P t → step t a = some u → (P u ↔ C t a))
    {as : List α} (h : run step s as = some u) :
    Always step P s as ↔ P s ∧ AllSteps step C s as := by
  induction as generalizing s with
  | nil => rw [always_nil, and_iff_left allSteps_nil]
  | cons a as ih =>
    rw [run_cons, Option.bind_eq_some_iff] at h
    obtain ⟨t, ht, hu⟩ := h
    rw [always_cons ht, allSteps_cons ht, ih hu]
    constructor
    · rintro ⟨hp, hq, hall⟩
      exact ⟨hp, (hstep s t a hp ht).1 hq, hall⟩
    · rintro ⟨hp, hc, hall⟩
      exact ⟨hp, (hstep s t a hp ht).2 hc, hall⟩

namespace Reach

theorem inv (P : σ → Prop) (h0 : P s)
    (hstep : ∀ t u a, P t → C t a → step t a = some u → P u) (h : Reach step C s t) : P t := by
  induction h with
  | refl => exact h0
  | tail _ hc hs ih => exact hstep _ _ _ ih hc hs

theorem mono (h : Reach step C s t) (hCD : ∀ t a, C t a → D t a) : Reach step D s t := by
  induction h with
  | refl => exact .refl
  | tail _ hc hs ih => exact .tail ih (hCD _ _ hc) hs

theorem trans (h₁ : Reach step C s t) (h₂ : Reach step C t u) : Reach step C s u := by
  induction h₂ with
  | refl => exact h₁
  | tail _ hc hs ih => exact .tail ih hc hs

/-- A run of a list of actions whose labels meet `C` everywhere. -/
theorem of_run {as : List α} (h : run step s as = some t) (hC : ∀ t, ∀ a ∈ as, C t a) :
    Reach step C s t := by
  induction as using List.reverseRecOn generalizing t with
  | nil =>
    simp only [run_nil, Option.some.injEq] at h
    subst h
    exact .refl
  | append_singleton as a ih =>
    rw [run_snoc, Option.bind_eq_some_iff] at h
    obtain ⟨t', ht', hs⟩ := h
    exact .tail (ih ht' fun t b hb => hC t b (by simp [hb])) (hC t' a (by simp)) hs

theorem of_allSteps {as : List α} (h : run step s as = some t) (hC : AllSteps step C s as) :
    Reach step C s t :=
  hC.inv (Reach step C s) .refl (fun _ _ _ hr hc hs => hr.tail hc hs) h

end Reach

/-! ## Lockstep simulation -/

section
variable {τ : Type*} {step' : τ → α → Option τ} {R : σ → τ → Prop}

/-- Two systems that agree on what is enabled and whose steps keep `R`, run together. -/
theorem run_lockstep (hstep : ∀ s t a, R s t → Option.Rel R (step s a) (step' t a)) {s : σ} {t : τ}
    (h : R s t) (as : List α) : Option.Rel R (run step s as) (run step' t as) := by
  induction as generalizing s t with
  | nil => exact .some h
  | cons a as ih =>
    rw [run_cons, run_cons]
    have hrel := hstep s t a h
    generalize step s a = x at hrel ⊢
    generalize step' t a = y at hrel ⊢
    cases hrel with
    | none => exact .none
    | some h' => exact ih h'

theorem Reach.lockstep (hstep : ∀ s t a, R s t → Option.Rel R (step s a) (step' t a))
    {C' : τ → α → Prop} (hC : ∀ s t a, R s t → C' t a → C s a) {s : σ} {t u : τ} (h : R s t)
    (hr : Reach step' C' t u) : ∃ v, Reach step C s v ∧ R v u := by
  induction hr with
  | refl => exact ⟨s, .refl, h⟩
  | @tail t' u a _ hc hs ih =>
    obtain ⟨v, hv, hR⟩ := ih
    have hrel := hstep v t' a hR
    rw [hs] at hrel
    generalize hx : step v a = x at hrel
    cases hrel with
    | some h' => exact ⟨_, .tail hv (hC v t' a hR hc) hx, h'⟩

end

end Lib
