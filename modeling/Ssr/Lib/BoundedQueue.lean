import Mathlib.Data.List.Basic

/-!
# Bounded queues

`queue` is the queue of at most `capacity` items, as a list. A machine that answers calls has a
`history`: the calls with their answers. `Law` says of a history, without naming a state, that it is
the history of a bounded queue; the list obeys it (`history_law`), and so does every machine that
answers as the list does (`history_eq`).
-/

set_option autoImplicit false

namespace Lib.BoundedQueue

variable {α σ τ : Type*}

inductive Call (α : Type*)
  | push (x : α)
  | pop
  deriving DecidableEq, Repr

/-- A call with its answer. -/
inductive Event (α : Type*)
  | push (x : α) (ok : Bool)
  | pop (x : Option α)
  deriving DecidableEq, Repr

def Event.accepted : Event α → List α
  | .push x true => [x]
  | _ => []

def Event.popped : Event α → List α
  | .pop (some x) => [x]
  | _ => []

/-- The items whose `push` returned `true`, in this order. -/
def accepted (h : List (Event α)) : List α := h.flatMap Event.accepted

/-- The items that `pop` returned, in this order. -/
def popped (h : List (Event α)) : List α := h.flatMap Event.popped

theorem accepted_cons (e : Event α) (h : List (Event α)) :
    accepted (e :: h) = e.accepted ++ accepted h := rfl

theorem popped_cons (e : Event α) (h : List (Event α)) :
    popped (e :: h) = e.popped ++ popped h := rfl

theorem popped_append (h₁ h₂ : List (Event α)) : popped (h₁ ++ h₂) = popped h₁ ++ popped h₂ :=
  List.flatMap_append

/-- The accepted items that are still to be popped. -/
def stored (h : List (Event α)) : List α := (accepted h).drop (popped h).length

def Event.isPop : Event α → Bool
  | .pop _ => true
  | .push _ _ => false

/-- The history of a bounded queue. -/
structure Law (capacity : ℕ) (h : List (Event α)) : Prop where
  /-- `push` succeeds if and only if there is room -/
  push_true_iff : ∀ pre x ok post, h = pre ++ .push x ok :: post →
    (ok = true ↔ (stored pre).length < capacity)
  /-- `pop` has no answer if and only if nothing is stored -/
  pop_none_iff : ∀ pre x post, h = pre ++ .pop x :: post → (x = none ↔ stored pre = [])
  /-- items come out at most once and in order -/
  popped_prefix : popped h <+: accepted h
  /-- after as many pops as there were items, all of them have come out -/
  accepted_prefix : ∀ pre post, h = pre ++ post → (stored pre).length ≤ post.countP Event.isPop →
    accepted pre <+: popped h

section
variable (step : σ → Call α → σ × Event α)

/-- The state after the calls. -/
def after : σ → List (Call α) → σ
  | s, [] => s
  | s, c :: cs => after (step s c).1 cs

def history : σ → List (Call α) → List (Event α)
  | _, [] => []
  | s, c :: cs => (step s c).2 :: history (step s c).1 cs

end

variable {step : σ → Call α → σ × Event α} {step' : τ → Call α → τ × Event α}

/-- Machines that answer alike and stay related have the same history. -/
theorem history_eq {R : σ → τ → Prop}
    (hstep : ∀ s t c, R s t → (step s c).2 = (step' t c).2 ∧ R (step s c).1 (step' t c).1)
    {s : σ} {t : τ} (h : R s t) (cs : List (Call α)) : history step s cs = history step' t cs := by
  induction cs generalizing s t with
  | nil => rfl
  | cons c cs ih =>
    obtain ⟨hanswer, hnext⟩ := hstep s t c h
    rw [history, history, hanswer, ih hnext]

/-- A cut of the history is a cut of the calls. -/
theorem history_append {s : σ} {cs : List (Call α)} {pre post : List (Event α)}
    (h : history step s cs = pre ++ post) :
    ∃ cs₁ cs₂, cs = cs₁ ++ cs₂ ∧ history step s cs₁ = pre ∧
      history step (after step s cs₁) cs₂ = post := by
  induction pre generalizing s cs with
  | nil => exact ⟨[], cs, rfl, rfl, h⟩
  | cons e pre ih =>
    cases cs with
    | nil => cases h
    | cons c cs =>
      obtain ⟨he, hrest⟩ := List.cons.inj h
      obtain ⟨cs₁, cs₂, rfl, hpre, hpost⟩ := ih hrest
      exact ⟨c :: cs₁, cs₂, rfl, by rw [history, he, hpre], hpost⟩

/-! ## The list -/

def push (capacity : ℕ) (xs : List α) (x : α) : List α × Event α :=
  if xs.length < capacity then (xs ++ [x], .push x true) else (xs, .push x false)

def pop : List α → List α × Event α
  | [] => ([], .pop none)
  | x :: xs => (xs, .pop (some x))

/-- A queue of at most `capacity` items, oldest first. -/
def queue (capacity : ℕ) (xs : List α) : Call α → List α × Event α
  | .push x => push capacity xs x
  | .pop => pop xs

variable {capacity : ℕ} {xs : List α}

theorem push_room {x : α} (h : xs.length < capacity) :
    push capacity xs x = (xs ++ [x], .push x true) := if_pos h

theorem push_full {x : α} (h : ¬ xs.length < capacity) :
    push capacity xs x = (xs, .push x false) := if_neg h

/-- What an answer of `push` says about the list. -/
theorem queue_push {c : Call α} {x : α} {ok : Bool} (h : (queue capacity xs c).2 = .push x ok) :
    ok = true ↔ xs.length < capacity := by
  cases c with
  | push y =>
    by_cases hroom : xs.length < capacity
    · rw [queue, push_room hroom] at h
      cases h
      simp [hroom]
    · rw [queue, push_full hroom] at h
      cases h
      simp [hroom]
  | pop => cases xs <;> cases h

/-- What an answer of `pop` says about the list. -/
theorem queue_pop {c : Call α} {x : Option α} (h : (queue capacity xs c).2 = .pop x) :
    x = none ↔ xs = [] := by
  cases c with
  | push y =>
    by_cases hroom : xs.length < capacity
    · rw [queue, push_room hroom] at h
      cases h
    · rw [queue, push_full hroom] at h
      cases h
  | pop =>
    cases xs with
    | nil =>
      cases h
      simp
    | cons y ys =>
      cases h
      simp

/-- One call adds the accepted item at the end and takes the popped item from the front. -/
theorem queue_step (xs : List α) (c : Call α) :
    xs ++ (queue capacity xs c).2.accepted =
      (queue capacity xs c).2.popped ++ (queue capacity xs c).1 := by
  cases c with
  | push x =>
    by_cases hroom : xs.length < capacity
    · rw [queue, push_room hroom]
      rfl
    · rw [queue, push_full hroom]
      exact List.append_nil xs
  | pop =>
    cases xs with
    | nil => rfl
    | cons y ys => exact List.append_nil (y :: ys)

theorem queue_history (xs : List α) (cs : List (Call α)) :
    xs ++ accepted (history (queue capacity) xs cs) =
      popped (history (queue capacity) xs cs) ++ after (queue capacity) xs cs := by
  induction cs generalizing xs with
  | nil => exact List.append_nil xs
  | cons c cs ih =>
    rw [history, after, accepted_cons, popped_cons, ← List.append_assoc, queue_step,
      List.append_assoc, List.append_assoc, ih]

/-- From the empty queue on, the list is what is stored. -/
theorem accepted_history (cs : List (Call α)) : accepted (history (queue capacity) [] cs) =
    popped (history (queue capacity) [] cs) ++ after (queue capacity) [] cs := queue_history [] cs

theorem stored_history (cs : List (Call α)) :
    stored (history (queue capacity) [] cs) = after (queue capacity) [] cs := by
  rw [stored, accepted_history, List.drop_left]

/-- Pops take the items that are in the queue before any new ones. -/
theorem take_prefix_popped (xs : List α) (cs : List (Call α)) :
    xs.take ((history (queue capacity) xs cs).countP Event.isPop) <+:
      popped (history (queue capacity) xs cs) := by
  induction cs generalizing xs with
  | nil => exact List.prefix_rfl
  | cons c cs ih =>
    rw [history, popped_cons]
    cases c with
    | push x =>
      by_cases hroom : xs.length < capacity
      · rw [queue, push_room hroom]
        refine List.IsPrefix.trans ?_ (ih (xs ++ [x]))
        rw [List.countP_cons_of_neg (by simp [Event.isPop]), List.take_append]
        exact List.prefix_append _ _
      · rw [queue, push_full hroom, List.countP_cons_of_neg (by simp [Event.isPop])]
        exact ih xs
    | pop =>
      cases xs with
      | nil =>
        rw [List.take_nil]
        exact List.nil_prefix
      | cons y ys =>
        rw [List.countP_cons_of_pos (by rfl), List.take_succ_cons]
        exact (List.prefix_cons_inj y).2 (ih ys)

/-- The list at a point of the history, and the call that comes next. -/
theorem history_point {cs : List (Call α)} {pre post : List (Event α)} {e : Event α}
    (h : history (queue capacity) [] cs = pre ++ e :: post) :
    ∃ c, (queue capacity (stored pre) c).2 = e := by
  obtain ⟨cs₁, cs₂, -, rfl, hpost⟩ := history_append h
  cases cs₂ with
  | nil => cases hpost
  | cons c cs₂ =>
    rw [stored_history]
    exact ⟨c, (List.cons.inj hpost).1⟩

/-- **The list obeys the law.** -/
theorem history_law (cs : List (Call α)) : Law capacity (history (queue capacity) [] cs) := by
  constructor
  · intro pre x ok post h
    obtain ⟨c, hc⟩ := history_point h
    exact queue_push hc
  · intro pre x post h
    obtain ⟨c, hc⟩ := history_point h
    exact queue_pop hc
  · rw [accepted_history]
    exact List.prefix_append _ _
  · intro pre post h hpops
    obtain ⟨cs₁, cs₂, -, rfl, rfl⟩ := history_append h
    rw [stored_history] at hpops
    have hpopped := @take_prefix_popped _ capacity (after (queue capacity) [] cs₁) cs₂
    rw [List.take_of_length_le hpops] at hpopped
    rw [h, popped_append, accepted_history]
    exact (List.prefix_append_right_inj _).2 hpopped

end Lib.BoundedQueue
