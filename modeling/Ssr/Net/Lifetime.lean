import Ssr.Lib.Run

/-!
# The lifetime of a network connection (`boostnetwork/connection.cpp`)

Nothing owns a `Connection` but the handlers of its pending operations, which hold a
`shared_from_this()`: `handle_accept` until the client is there, then one read, one wait of the
timer and any number of writes. `read_handler` and `timeout_handler` start the next operation, so
the object stays until `read_handler` gets an error: it starts no read and cancels the timer. A wait
that is over cannot be cancelled any more: its handler has been queued already and is called without
an error, and then `timeout_handler` waits again. This and that every operation calls its handler
once is what `boost::asio` promises; the rest is the code of `Connection` and `Server`.

`disconnected`: whether the object is destroyed after the client has gone is decided by the state of
the timer at that moment. If it was still waiting then every order of the remaining handlers ends
with the destructor, otherwise none does.
-/

set_option autoImplicit false

namespace Net

open Lib

/-- The wait of `_timer` that has been started last. -/
inductive Timer
  /-- there is no wait -/
  | off
  | waiting
  /-- the time is over, the handler will be called without an error -/
  | expired
  /-- the handler will be called with an error -/
  | cancelled
  deriving DecidableEq, Repr

/-- The operations of a connection whose handlers have not been called. -/
structure Lifetime where
  accepting : Bool
  reading : Bool
  timer : Timer
  writes : ℕ
  deriving DecidableEq, Repr

namespace Lifetime

inductive Event
  /-- `handle_accept` and `Connection::start` -/
  | accept
  /-- `handle_accept` with an error -/
  | acceptError
  /-- `NetworkSubscriber::update_all_clients` -/
  | update
  | writeHandler
  | readHandler
  /-- `read_handler` with an error -/
  | readError
  /-- the 100 ms are over -/
  | expire
  | timeoutHandler
  deriving DecidableEq, Repr

/-- `Server::start_accept` has created the object. -/
def create : Lifetime := { accepting := true, reading := false, timer := .off, writes := 0 }

/-- The use count of the shared pointer. -/
def useCount (s : Lifetime) : ℕ :=
  s.accepting.toNat + s.reading.toNat + (if s.timer = .off then 0 else 1) + s.writes

def Destroyed (s : Lifetime) : Prop := s.useCount = 0

instance (s : Lifetime) : Decidable s.Destroyed := inferInstanceAs (Decidable (_ = _))

def write (s : Lifetime) : Lifetime := { s with writes := s.writes + 1 }

/-- `_timer.cancel()` -/
def cancel (s : Lifetime) : Lifetime :=
  { s with timer := if s.timer = .waiting then .cancelled else s.timer }

def step (s : Lifetime) : Event → Option Lifetime
  | .accept =>
    if s.accepting then
      some { s.write with accepting := false, reading := true, timer := .waiting }
    else none
  | .acceptError => if s.accepting then some { s with accepting := false } else none
  -- the subscriber is in the list from `start` to the destructor
  | .update => if s.accepting ∨ s.Destroyed then none else some s.write
  | .writeHandler => if 0 < s.writes then some { s with writes := s.writes - 1 } else none
  | .readHandler => if s.reading then some s else none
  | .readError => if s.reading then some { s.cancel with reading := false } else none
  | .expire => if s.timer = .waiting then some { s with timer := .expired } else none
  | .timeoutHandler =>
    match s.timer with
    | .expired => some { s.write with timer := .waiting }
    | .cancelled => some { s with timer := .off }
    | _ => none

/-! ## While the client is there -/

/-- As long as it is read, the timer goes on. -/
structure Reading (s : Lifetime) : Prop where
  accepting : s.accepting = true → s.reading = false
  timer : s.reading = true → s.timer = .waiting ∨ s.timer = .expired

theorem reading_create : create.Reading := ⟨fun _ => rfl, (nomatch ·)⟩

theorem Reading.step {s t : Lifetime} (h : s.Reading) {e : Event} (hs : s.step e = some t) :
    t.Reading := by
  cases e with
  | accept =>
    simp only [Lifetime.step] at hs
    split at hs
    · cases hs
      exact ⟨(nomatch ·), fun _ => .inl rfl⟩
    · cases hs
  | acceptError =>
    simp only [Lifetime.step] at hs
    split at hs
    · cases hs
      exact ⟨(nomatch ·), h.timer⟩
    · cases hs
  | update =>
    simp only [Lifetime.step] at hs
    split at hs
    · cases hs
    · cases hs
      exact ⟨h.accepting, h.timer⟩
  | writeHandler =>
    simp only [Lifetime.step] at hs
    split at hs
    · cases hs
      exact ⟨h.accepting, h.timer⟩
    · cases hs
  | readHandler =>
    simp only [Lifetime.step] at hs
    split at hs
    · cases hs
      exact h
    · cases hs
  | readError =>
    simp only [Lifetime.step] at hs
    split at hs
    · cases hs
      exact ⟨fun _ => rfl, (nomatch ·)⟩
    · cases hs
  | expire =>
    simp only [Lifetime.step] at hs
    split at hs
    · cases hs
      exact ⟨h.accepting, fun _ => .inr rfl⟩
    · cases hs
  | timeoutHandler =>
    simp only [Lifetime.step] at hs
    split at hs
    · cases hs
      exact ⟨h.accepting, fun _ => .inl rfl⟩
    · rename_i htimer
      cases hs
      refine ⟨h.accepting, fun hr => ?_⟩
      rcases h.timer hr with hw | he
      · rw [htimer] at hw
        cases hw
      · rw [htimer] at he
        cases he
    · cases hs

/-! ## After an error -/

/-- It is not read any more. -/
structure Gone (s : Lifetime) : Prop where
  accepting : s.accepting = false
  reading : s.reading = false

/-- The timer has been stopped. -/
structure Ending (s : Lifetime) : Prop extends s.Gone where
  timer : s.timer = .off ∨ s.timer = .cancelled

/-- The timer goes on. -/
structure Lingering (s : Lifetime) : Prop extends s.Gone where
  timer : s.timer = .waiting ∨ s.timer = .expired

/-- What can happen without a client. -/
theorem Gone.step_cases {s t : Lifetime} (h : s.Gone) {e : Event} (hs : s.step e = some t) :
    (e = .update ∧ t = s.write) ∨
    (e = .writeHandler ∧ 0 < s.writes ∧ t = { s with writes := s.writes - 1 }) ∨
    (e = .expire ∧ s.timer = .waiting ∧ t = { s with timer := .expired }) ∨
    (e = .timeoutHandler ∧ s.timer = .expired ∧ t = { s.write with timer := .waiting }) ∨
    (e = .timeoutHandler ∧ s.timer = .cancelled ∧ t = { s with timer := .off }) := by
  cases e with
  | accept | acceptError =>
    rw [Lifetime.step, h.accepting] at hs
    cases hs
  | readHandler | readError =>
    rw [Lifetime.step, h.reading] at hs
    cases hs
  | update =>
    simp only [Lifetime.step] at hs
    split at hs
    · cases hs
    · cases hs
      exact .inl ⟨rfl, rfl⟩
  | writeHandler =>
    simp only [Lifetime.step] at hs
    split at hs
    · rename_i hwrites
      cases hs
      exact .inr (.inl ⟨rfl, hwrites, rfl⟩)
    · cases hs
  | expire =>
    simp only [Lifetime.step] at hs
    split at hs
    · rename_i htimer
      cases hs
      exact .inr (.inr (.inl ⟨rfl, htimer, rfl⟩))
    · cases hs
  | timeoutHandler =>
    simp only [Lifetime.step] at hs
    split at hs
    · rename_i htimer
      cases hs
      exact .inr (.inr (.inr (.inl ⟨rfl, htimer, rfl⟩)))
    · rename_i htimer
      cases hs
      exact .inr (.inr (.inr (.inr ⟨rfl, htimer, rfl⟩)))
    · cases hs

theorem Lingering.step {s t : Lifetime} (h : s.Lingering) {e : Event} (hs : s.step e = some t) :
    t.Lingering := by
  obtain ⟨-, rfl⟩ | ⟨-, -, rfl⟩ | ⟨-, -, rfl⟩ | ⟨-, -, rfl⟩ | ⟨-, htimer, -⟩ :=
    h.toGone.step_cases hs
  · exact ⟨⟨h.accepting, h.reading⟩, h.timer⟩
  · exact ⟨⟨h.accepting, h.reading⟩, h.timer⟩
  · exact ⟨⟨h.accepting, h.reading⟩, .inr rfl⟩
  · exact ⟨⟨h.accepting, h.reading⟩, .inl rfl⟩
  · rcases h.timer with hw | he
    · rw [htimer] at hw
      cases hw
    · rw [htimer] at he
      cases he

theorem Lingering.not_destroyed {s : Lifetime} (h : s.Lingering) : ¬ s.Destroyed := by
  have htimer : s.timer ≠ .off := by
    rcases h.timer with hw | he
    · simp [hw]
    · simp [he]
  simp only [Destroyed, useCount, if_neg htimer]
  omega

theorem Ending.timer_ne {s : Lifetime} (h : s.Ending) :
    s.timer ≠ .waiting ∧ s.timer ≠ .expired := by
  rcases h.timer with hoff | hcancelled
  · simp [hoff]
  · simp [hcancelled]

theorem Ending.step {s t : Lifetime} (h : s.Ending) {e : Event} (hs : s.step e = some t) :
    t.Ending := by
  obtain ⟨-, rfl⟩ | ⟨-, -, rfl⟩ | ⟨-, htimer, -⟩ | ⟨-, htimer, -⟩ | ⟨-, -, rfl⟩ :=
    h.toGone.step_cases hs
  · exact ⟨⟨h.accepting, h.reading⟩, h.timer⟩
  · exact ⟨⟨h.accepting, h.reading⟩, h.timer⟩
  · exact absurd htimer h.timer_ne.1
  · exact absurd htimer h.timer_ne.2
  · exact ⟨⟨h.accepting, h.reading⟩, .inl rfl⟩

/-- Each handler gives its pointer back. -/
theorem Ending.useCount_step {s t : Lifetime} (h : s.Ending) {e : Event} (he : e ≠ .update)
    (hs : s.step e = some t) : t.useCount + 1 = s.useCount := by
  obtain ⟨hupdate, -⟩ | ⟨-, hwrites, rfl⟩ | ⟨-, htimer, -⟩ | ⟨-, htimer, -⟩ | ⟨-, htimer, rfl⟩ :=
    h.toGone.step_cases hs
  · exact absurd hupdate he
  · simp only [useCount]
    omega
  · exact absurd htimer h.timer_ne.1
  · exact absurd htimer h.timer_ne.2
  · simp only [useCount, htimer, if_true, reduceCtorEq, if_false]
    omega

/-- There is a handler to be called. -/
theorem Ending.progress {s : Lifetime} (h : s.Ending) (hs : ¬ s.Destroyed) :
    ∃ e ≠ Event.update, (s.step e).isSome := by
  by_cases hwrites : 0 < s.writes
  · exact ⟨.writeHandler, by decide, by simp [Lifetime.step, hwrites]⟩
  · refine ⟨.timeoutHandler, by decide, ?_⟩
    rcases h.timer with hoff | hcancelled
    · refine absurd ?_ hs
      simp only [Destroyed, useCount, h.accepting, h.reading, hoff, Bool.toNat_false, if_true]
      omega
    · simp [Lifetime.step, hcancelled]

theorem Ending.useCount_run {s : Lifetime} (h : s.Ending) {es : List Event}
    (hes : .update ∉ es) {t : Lifetime} (hrun : run Lifetime.step s es = some t) :
    t.Ending ∧ t.useCount + es.length = s.useCount := by
  induction es generalizing s with
  | nil =>
    cases hrun
    exact ⟨h, rfl⟩
  | cons e es ih =>
    rw [run_cons, Option.bind_eq_some_iff] at hrun
    obtain ⟨u, hu, hrun⟩ := hrun
    rw [List.mem_cons, not_or] at hes
    obtain ⟨ht, hcount⟩ := ih (h.step hu) hes.2 hrun
    have hstep := h.useCount_step (Ne.symm hes.1) hu
    refine ⟨ht, ?_⟩
    rw [List.length_cons]
    omega

/-- Whichever handlers are called, and as long as there are no updates, there is another one until
the object is destroyed, after as many as have pointers to it. -/
def Ends (s : Lifetime) : Prop :=
  ∀ es t, .update ∉ es → run step s es = some t →
    (t.Destroyed ↔ es.length = s.useCount) ∧
      (¬ t.Destroyed → ∃ e ≠ Event.update, (t.step e).isSome)

/-- The object is never destroyed, updates or not. -/
def Stays (s : Lifetime) : Prop := ∀ es t, run step s es = some t → ¬ t.Destroyed

theorem Ending.ends {s : Lifetime} (h : s.Ending) : s.Ends := by
  intro es t hes hrun
  obtain ⟨ht, hcount⟩ := h.useCount_run hes hrun
  refine ⟨?_, ht.progress⟩
  rw [Destroyed]
  omega

theorem Lingering.stays {s : Lifetime} (h : s.Lingering) : s.Stays := by
  intro es t hrun
  have hreach := Reach.of_run (C := fun _ _ => True) hrun fun _ _ _ => trivial
  exact (hreach.inv _ h fun _ _ _ hi _ hs => hi.step hs).not_destroyed

theorem Reading.readError {s t : Lifetime} (h : s.Reading) (hs : s.step .readError = some t) :
    s.timer = .waiting ∧ t.Ending ∨ s.timer = .expired ∧ t.Lingering := by
  simp only [Lifetime.step] at hs
  split at hs
  · rename_i hreading
    cases hs
    have haccepting : s.accepting = false := by
      cases ha : s.accepting with
      | false => rfl
      | true => rw [h.accepting ha] at hreading; cases hreading
    rcases h.timer hreading with hw | he
    · exact .inl ⟨hw, ⟨haccepting, rfl⟩, .inr (by simp [cancel, hw])⟩
    · exact .inr ⟨he, ⟨haccepting, rfl⟩, .inr (by simp [cancel, he])⟩
  · cases hs

/-- **Destroyed or not**: the state of the timer when the client goes decides whether the handlers
that are left end with the destructor, in whichever order they and the updates come. -/
theorem disconnected {before after : List Event} {s t u : Lifetime}
    (hbefore : run step create before = some s) (herror : s.step .readError = some t)
    (hafter : run step t after = some u) :
    s.timer = .waiting ∧ u.Ends ∨ s.timer = .expired ∧ u.Stays := by
  have hreading : s.Reading :=
    (Reach.of_run (C := fun _ _ => True) hbefore fun _ _ _ => trivial).inv _ reading_create
      fun _ _ _ h _ hs => h.step hs
  have hreach := Reach.of_run (C := fun _ _ => True) hafter fun _ _ _ => trivial
  rcases hreading.readError herror with ⟨htimer, hending⟩ | ⟨htimer, hlingering⟩
  · exact .inl ⟨htimer, (hreach.inv _ hending fun _ _ _ h _ hs => h.step hs).ends⟩
  · exact .inr ⟨htimer, (hreach.inv _ hlingering fun _ _ _ h _ hs => h.step hs).stays⟩

/-- The client goes when the handler of the timer has been queued; then the timer goes on. -/
theorem disconnected_late :
    let s : Lifetime := ⟨false, true, .expired, 1⟩
    let u : Lifetime := ⟨false, false, .waiting, 1⟩
    s.timer = .waiting ∧ u.Ends ∨ s.timer = .expired ∧ u.Stays :=
  @disconnected [.accept, .expire] [.writeHandler, .timeoutHandler] _
    ⟨false, false, .expired, 1⟩ _ rfl rfl rfl

end Lifetime

end Net
