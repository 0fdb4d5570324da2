import Ssr.Control.Subscribers
import Mathlib.Data.List.Infix

/-!
# Transport state for the network clients (`boostnetwork/`)

Each `Connection` owns a `NetworkSubscriber`. `Connection::start` subscribes it and then sends the
whole scene, with the transport state that the renderer has at that moment; later updates come from
`NetworkSubscriber::set_transport_state`, whose `previous_state` is a `static` local variable and so
shared by all connections. The run of a server records which clients did not know the state right
after it was published (`stale`) and which calls went to a destroyed subscriber (`destroyedCalls`).

`informed_iff`: a run leaves no client behind if and only if every publish of the run `Reaches` its
clients: only one client can be told, so all others have to know the state already.
-/

set_option autoImplicit false

namespace Net

open Control

/-- The elements of `_subscribers`. -/
inductive Subscriber
  | scene
  | renderer
  | network (connection : ℕ)
  deriving DecidableEq, Repr

structure Server where
  subscribers : List Subscriber
  /-- the connections whose objects exist and are subscribed -/
  alive : List ℕ
  /-- those that have sent the whole scene -/
  greeted : List ℕ
  /-- the `static` variable of `NetworkSubscriber::set_transport_state` -/
  previousState : Bool
  /-- `_renderer.get_transport_state().first` -/
  transport : Bool
  /-- the transport state in the last message of a connection -/
  received : ℕ → Option Bool
  stale : List (ℕ × Bool)
  destroyedCalls : List ℕ

namespace Server

/-- A Controller without connections, the transport stopped. -/
def start : Server :=
  { subscribers := [.scene, .renderer], alive := [], greeted := [], previousState := false,
    transport := false, received := fun _ => none, stale := [], destroyedCalls := [] }

/-- `NetworkSubscriber::set_transport_state` of the connection `c`. -/
def setTransportState (state : Bool) (s : Server) (c : ℕ) : Server :=
  if s.previousState ≠ state then
    { s with received := Function.update s.received c (some state), previousState := state }
  else s

/-- The call of `set_transport_state` on a subscriber, if there still is one. -/
def call (state : Bool) (s : Server) : Subscriber → Server
  | .network c =>
    if c ∈ s.alive then s.setTransportState state c
    else { s with destroyedCalls := s.destroyedCalls ++ [c] }
  | _ => s

/-- `_publish(&Subscriber::set_transport_state, state)`, and a look at the clients. -/
def publishTransport (s : Server) (state : Bool) : Server :=
  let s := publish (call state) s s.subscribers
  { s with
    stale := s.stale ++ (s.greeted.filter fun c => s.received c ≠ some state).map (·, state) }

inductive Op
  /-- the first statement of `Connection::start` -/
  | subscribe (c : ℕ)
  /-- `get_scene_as_XML` and `write` in `Connection::start` -/
  | greet (c : ℕ)
  /-- `~Connection` -/
  | disconnect (c : ℕ)
  /-- the transport is started or stopped -/
  | transport (state : Bool)
  | publish (state : Bool)
  deriving DecidableEq, Repr

def step (s : Server) : Op → Option Server
  | .subscribe c =>
    if c ∈ s.alive then none
    else some { s with
      subscribers := subscribe s.subscribers (.network c)
      alive := s.alive ++ [c]
      received := Function.update s.received c none }
  | .greet c =>
    if c ∈ s.alive ∧ c ∉ s.greeted then
      some { s with
        greeted := s.greeted ++ [c]
        received := Function.update s.received c (some s.transport) }
    else none
  | .disconnect c =>
    if c ∈ s.alive then
      some { s with
        subscribers := unsubscribe s.subscribers (.network c)
        alive := s.alive.erase c
        greeted := s.greeted.erase c }
    else none
  | .transport state => some { s with transport := state }
  | .publish state => some (s.publishTransport state)

/-- After every publish so far all clients knew the published state, and no destroyed subscriber
was called. -/
def Informed (s : Server) : Prop := s.stale = [] ∧ s.destroyedCalls = []

/-- The connections behind `_subscribers`, in order. -/
def networks (subscribers : List Subscriber) : List ℕ :=
  subscribers.filterMap fun
    | .network c => some c
    | _ => none

/-- The only connection that sends a message when `state` is published: the first one, if the
state is not the previous one. -/
def notified (s : Server) (state : Bool) : Option ℕ :=
  if s.previousState = state then none else (networks s.subscribers).head?

/-- All subscribers exist, and all clients but the notified one know `state` already. -/
def Reaches (s : Server) (state : Bool) : Prop :=
  (∀ c ∈ networks s.subscribers, c ∈ s.alive) ∧
    ∀ c ∈ s.greeted, s.received c = some state ∨ s.notified state = some c

/-! ## One publish -/

@[simp] theorem networks_cons_network (c : ℕ) (xs : List Subscriber) :
    networks (.network c :: xs) = c :: networks xs := rfl

/-- What the loop over `xs` leaves of the state `s`. -/
structure Published (state : Bool) (s : Server) (xs : List Subscriber) (t : Server) : Prop where
  greeted : t.greeted = s.greeted
  stale : t.stale = s.stale
  destroyedCalls : t.destroyedCalls =
    s.destroyedCalls ++ (networks xs).filter (· ∉ s.alive)
  received : ∀ c, t.received c =
    if s.previousState ≠ state ∧ ((networks xs).filter (· ∈ s.alive)).head? = some c then some state
    else s.received c

theorem published (state : Bool) (xs : List Subscriber) (s : Server) :
    Published state s xs (publish (call state) s xs) := by
  induction xs generalizing s with
  | nil => exact ⟨rfl, rfl, by simp [publish, networks], by simp [publish, networks]⟩
  | cons x xs ih =>
    cases x with
    | scene | renderer =>
      have h := ih s
      exact ⟨h.greeted, h.stale, h.destroyedCalls, h.received⟩
    | network c =>
      by_cases hc : c ∈ s.alive
      · have hcall : call state s (.network c) = s.setTransportState state c := by
          simp only [call, if_pos hc]
        rw [publish, hcall]
        by_cases hs : s.previousState = state
        · have hset : s.setTransportState state c = s := by
            simp only [setTransportState, hs, ne_eq, not_true_eq_false, if_false]
          have h := ih s
          rw [hset]
          refine ⟨h.greeted, h.stale, ?_, fun d => ?_⟩
          · rw [h.destroyedCalls, networks_cons_network, List.filter_cons_of_neg (by simpa using hc)]
          · rw [h.received d]
            simp [hs]
        · -- the first connection that is told, and the last
          have hset : s.setTransportState state c = { s with
              received := Function.update s.received c (some state), previousState := state } := by
            simp only [setTransportState, ne_eq, hs, not_false_eq_true, if_true]
          rw [hset]
          set s₁ : Server := { s with
            received := Function.update s.received c (some state), previousState := state }
          have h := ih s₁
          refine ⟨h.greeted, h.stale, ?_, fun d => ?_⟩
          · rw [h.destroyedCalls, networks_cons_network, List.filter_cons_of_neg (by simpa using hc)]
          · rw [h.received d, networks_cons_network, List.filter_cons_of_pos (by simpa using hc)]
            simp only [ne_eq, not_true_eq_false, false_and, if_false, hs, not_false_eq_true,
              true_and, List.head?_cons, Option.some.injEq, s₁]
            by_cases hd : c = d
            · subst hd
              simp
            · simp [hd, Function.update_of_ne (Ne.symm hd)]
      · have hcall : call state s (.network c) =
            { s with destroyedCalls := s.destroyedCalls ++ [c] } := by
          simp only [call, if_neg hc]
        rw [publish, hcall]
        set s₁ : Server := { s with destroyedCalls := s.destroyedCalls ++ [c] }
        have h := ih s₁
        refine ⟨h.greeted, h.stale, ?_, fun d => ?_⟩
        · rw [h.destroyedCalls, networks_cons_network, List.filter_cons_of_pos (by simpa using hc)]
          simp [s₁]
        · rw [h.received d, networks_cons_network, List.filter_cons_of_neg (by simpa using hc)]

/-- A publish leaves everybody informed exactly if it reaches everybody. -/
theorem publishTransport_informed_iff (s : Server) (state : Bool) :
    (s.publishTransport state).Informed ↔ s.Informed ∧ s.Reaches state := by
  have h := published state s.subscribers s
  simp only [publishTransport, Informed, Reaches]
  generalize publish (call state) s s.subscribers = t at h
  rw [h.greeted, h.stale, h.destroyedCalls]
  simp only [List.append_eq_nil_iff, List.map_eq_nil_iff, List.filter_eq_nil_iff,
    decide_eq_true_eq, not_not]
  have hreceived : (∀ c ∈ networks s.subscribers, c ∈ s.alive) → ∀ c,
      (t.received c = some state ↔ s.received c = some state ∨ s.notified state = some c) := by
    intro halive c
    have hfilter : (networks s.subscribers).filter (· ∈ s.alive) = networks s.subscribers := by
      rw [List.filter_eq_self]
      simpa using halive
    rw [h.received c, hfilter, notified]
    by_cases hs : s.previousState = state
    · simp [hs]
    · simp only [ne_eq, hs, not_false_eq_true, true_and, if_false]
      split
      · rename_i hc
        simp [hc]
      · rename_i hc
        simp [hc]
  constructor
  · rintro ⟨⟨hstale, hknow⟩, hdestroyed, halive⟩
    exact ⟨⟨hstale, hdestroyed⟩, halive, fun c hc => (hreceived halive c).1 (hknow c hc)⟩
  · rintro ⟨⟨hstale, hdestroyed⟩, halive, hknow⟩
    exact ⟨⟨hstale, fun c hc => (hreceived halive c).2 (hknow c hc)⟩, hdestroyed, halive⟩

/-! ## Runs -/

/-- The condition on a step: a publish reaches everybody. -/
def PublishReaches (s : Server) (op : Op) : Prop := ∀ state, op = .publish state → s.Reaches state

theorem step_informed_iff (s t : Server) (op : Op) (h : s.step op = some t) :
    t.Informed ↔ s.Informed ∧ s.PublishReaches op := by
  cases op with
  | publish state =>
    cases h
    rw [publishTransport_informed_iff]
    refine and_congr_right fun _ => ⟨fun hr state' he => ?_, fun hr => hr state rfl⟩
    cases he
    exact hr
  | transport state =>
    cases h
    exact ⟨fun hi => ⟨hi, fun _ he => by cases he⟩, And.left⟩
  | subscribe c | greet c | disconnect c =>
    simp only [step] at h
    split at h
    all_goals first
      | cases h; done
      | cases h
        exact ⟨fun hi => ⟨hi, fun _ he => by cases he⟩, And.left⟩

/-- **Every client knows the transport state after every publish** of a run if and only if every
publish of the run reaches everybody. -/
theorem informed_iff {ops : List Op} {s : Server} (hrun : Lib.run step start ops = some s) :
    s.Informed ↔ Lib.AllSteps step PublishReaches start ops := by
  rw [Lib.run_iff step_informed_iff hrun]
  exact and_iff_right ⟨rfl, rfl⟩

theorem informed_iff_one_client :
    ∃ s, Lib.run step start [.subscribe 0, .greet 0, .transport true, .publish true] = some s ∧
      (s.Informed ↔ Lib.AllSteps step PublishReaches start
        [.subscribe 0, .greet 0, .transport true, .publish true]) :=
  ⟨_, rfl, informed_iff rfl⟩

/-- Two clients connect, the transport starts: only the first one is told. -/
theorem second_client_not_told :
    ¬ ∀ ops s, Lib.run step start ops = some s → s.Informed := by
  intro h
  have hi := h [.subscribe 0, .greet 0, .subscribe 1, .greet 1, .transport true, .publish true]
    _ rfl
  exact absurd hi.1 (by decide)

end Server

end Net
