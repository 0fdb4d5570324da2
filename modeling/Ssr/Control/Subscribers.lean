import Ssr.Lib.Run
import Mathlib.Data.List.Perm.Basic
import Mathlib.Data.List.Count
import Mathlib.Data.List.Nodup

/-!
# The subscribers of the Controller (`controller.h`)

`_subscribers` is a vector of pointers: `subscribe` appends, `unsubscribe` calls `std::remove` and
does not erase, `publish` calls a member function on every element in order. The run of a
controller also records who is subscribed (`current`) and who has been unsubscribed (`removed`).

`publish_calls_subscribed_iff`: a publish reaches exactly the current subscribers if and only if
none has been unsubscribed so far. The reason is `Consistent.length`: the vector never shrinks.
-/

set_option autoImplicit false

namespace Control

variable {α σ : Type}

/-- `_publish`: `call s x` is the call of the member function on the subscriber `x`. -/
def publish (call : σ → α → σ) : σ → List α → σ
  | s, [] => s
  | s, x :: xs => publish call (call s x) xs

section
variable [DecidableEq α]

/-- `std::remove` on pointers: the other elements move to the front, behind them the vector keeps
the values that it had. -/
def stdRemove (xs : List α) (v : α) : List α :=
  let kept := xs.filter (· ≠ v)
  kept ++ xs.drop kept.length

def subscribe (subscribers : List α) (subscriber : α) : List α := subscribers ++ [subscriber]

/-- The iterator that `std::remove` returns is ignored. -/
def unsubscribe (subscribers : List α) (subscriber : α) : List α :=
  stdRemove subscribers subscriber

end

/-- The subscribers that a publish calls, in this order. -/
def called (subscribers : List α) : List α := publish (fun log x => log ++ [x]) [] subscribers

inductive SubscriberOp (α : Type)
  | subscribe (subscriber : α)
  | unsubscribe (subscriber : α)
  | publish
  deriving DecidableEq, Repr

structure SubscriberList (α : Type) where
  subscribers : List α
  /-- those who have subscribed and not unsubscribed since -/
  current : List α
  /-- those who were subscribed when they unsubscribed -/
  removed : List α
  deriving DecidableEq, Repr

namespace SubscriberList

/-- The subscribers of a new Controller. -/
def start (subscribers : List α) : SubscriberList α :=
  { subscribers, current := subscribers, removed := [] }

variable [DecidableEq α]

/-- A subscriber subscribes only while it is not subscribed. -/
def step (s : SubscriberList α) : SubscriberOp α → Option (SubscriberList α)
  | .subscribe x =>
    if x ∈ s.current then none
    else some { s with
      subscribers := subscribe s.subscribers x
      current := s.current ++ [x] }
  | .unsubscribe x =>
    some { s with
      subscribers := unsubscribe s.subscribers x
      current := s.current.erase x
      removed := if x ∈ s.current then s.removed ++ [x] else s.removed }
  | .publish => some s

/-- The next publish calls every current subscriber once and nobody else. -/
def CallsSubscribed (s : SubscriberList α) : Prop :=
  ∀ x, (called s.subscribers).count x = if x ∈ s.current then 1 else 0

end SubscriberList

/-! ## `std::remove` -/

section
variable [DecidableEq α]

theorem length_stdRemove (xs : List α) (v : α) : (stdRemove xs v).length = xs.length := by
  have hle : (xs.filter (· ≠ v)).length ≤ xs.length := List.length_filter_le _ _
  simp only [stdRemove, List.length_append, List.length_drop]
  omega

theorem stdRemove_of_not_mem {xs : List α} {v : α} (h : v ∉ xs) : stdRemove xs v = xs := by
  have hkept : xs.filter (· ≠ v) = xs := by
    rw [List.filter_eq_self]
    intro x hx
    simp only [ne_eq, decide_eq_true_eq]
    rintro rfl
    exact h hx
  simp only [stdRemove, hkept, List.drop_length, List.append_nil]

end

theorem called_eq (xs : List α) : called xs = xs := by
  have h : ∀ log : List α, publish (fun log x => log ++ [x]) log xs = log ++ xs := by
    induction xs with
    | nil => simp [publish]
    | cons x xs ih =>
      intro log
      rw [publish, ih, List.append_assoc, List.singleton_append]
  exact h []

/-! ## Runs -/

namespace SubscriberList

open Lib

/-- The vector has as many elements as there have been subscribers in all. -/
structure Consistent (s : SubscriberList α) : Prop where
  nodup : s.current.Nodup
  length : s.subscribers.length = s.current.length + s.removed.length
  same : s.removed = [] → s.subscribers = s.current

theorem Consistent.start {xs : List α} (h : xs.Nodup) : Consistent (start xs) :=
  ⟨h, rfl, fun _ => rfl⟩

variable [DecidableEq α]

theorem Consistent.step {s t : SubscriberList α} (h : Consistent s) {op : SubscriberOp α}
    (hstep : s.step op = some t) : Consistent t := by
  cases op with
  | subscribe x =>
    simp only [SubscriberList.step] at hstep
    split at hstep
    · cases hstep
    · rename_i hx
      cases hstep
      refine ⟨?_, ?_, fun hr => ?_⟩
      · exact List.nodup_append.2 ⟨h.nodup, List.nodup_singleton x, fun a ha b hb => by
          rw [List.mem_singleton.1 hb]
          exact fun he => hx (he ▸ ha)⟩
      · have := h.length
        simp only [subscribe, List.length_append, List.length_singleton]
        omega
      · simp only [subscribe, h.same hr]
  | unsubscribe x =>
    cases hstep
    have hlen := h.length
    refine ⟨h.nodup.erase x, ?_, fun hr => ?_⟩
    · by_cases hx : x ∈ s.current
      · have hpos := List.length_pos_of_mem hx
        simp only [unsubscribe, length_stdRemove, List.length_erase_of_mem hx, if_pos hx,
          List.length_append, List.length_singleton]
        omega
      · simp only [unsubscribe, length_stdRemove, List.erase_of_not_mem hx, if_neg hx, hlen]
    · by_cases hx : x ∈ s.current
      · simp [hx] at hr
      · simp only [if_neg hx] at hr
        have hsame := h.same hr
        simp only [unsubscribe, List.erase_of_not_mem hx, hsame, stdRemove_of_not_mem hx]
  | publish =>
    cases hstep
    exact h

theorem Consistent.callsSubscribed_iff {s : SubscriberList α} (h : Consistent s) :
    s.CallsSubscribed ↔ s.removed = [] := by
  unfold CallsSubscribed
  rw [called_eq]
  constructor
  · intro hc
    have hperm : s.subscribers.Perm s.current := by
      rw [List.perm_iff_count]
      intro x
      rw [hc x, h.nodup.count]
    have hlen := h.length
    rw [hperm.length_eq] at hlen
    exact List.length_eq_zero_iff.1 (by omega)
  · intro hr x
    rw [h.same hr, h.nodup.count]

/-- **A publish calls exactly the current subscribers**, each once, if and only if nobody has been
unsubscribed so far. -/
theorem publish_calls_subscribed_iff {xs : List α} (hxs : xs.Nodup) {ops : List (SubscriberOp α)}
    {s : SubscriberList α} (hrun : run step (start xs) ops = some s) :
    s.CallsSubscribed ↔ s.removed = [] := by
  have hreach := Reach.of_run (C := fun _ _ => True) hrun fun _ _ _ => trivial
  have hcons : Consistent s :=
    hreach.inv _ (Consistent.start hxs) fun _ _ _ h _ hstep => h.step hstep
  exact hcons.callsSubscribed_iff

theorem publish_calls_subscribed_iff_connected :
    (⟨[0, 1, 2], [0, 1, 2], []⟩ : SubscriberList ℕ).CallsSubscribed ↔
      (⟨[0, 1, 2], [0, 1, 2], []⟩ : SubscriberList ℕ).removed = [] :=
  publish_calls_subscribed_iff (show [0, 1].Nodup by decide)
    (show run step (start [0, 1]) [.subscribe 2, .publish] = some _ from rfl)

/-- A client connects and disconnects: the next publish still calls it. -/
theorem publish_calls_unsubscribed :
    ¬ ∀ (xs : List ℕ), xs.Nodup → ∀ ops s, run step (start xs) ops = some s →
      s.CallsSubscribed := by
  intro h
  have hc := h [0, 1] (by decide) [.subscribe 2, .unsubscribe 2, .publish] _ rfl 2
  exact absurd hc (by decide)

end SubscriberList

end Control
