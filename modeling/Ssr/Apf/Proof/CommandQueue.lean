import Ssr.Apf.CommandQueue

/-!
# The command queue over bounded lists

`sim_step`: the threads over the two rings and the threads over the two bounded lists run in
lockstep. `Balanced.step`: as long as every `_in_fifo.push` finds room for its command in both
FIFOs together, nothing is lost.
-/

set_option autoImplicit false

namespace Apf

namespace BoundedFifo

theorem Abstracts.push {b : BoundedFifo} {q : LockFreeFifo Command} (h : b.Abstracts q)
    (cmd : Command) :
    ∃ q', Fifo.push q cmd = (q', (Fifo.push b cmd).2) ∧ (Fifo.push b cmd).1.Abstracts q' := by
  obtain ⟨hq, hsize⟩ := h
  by_cases hlt : b.items.length < b.capacity
  · obtain ⟨q', hpush, hq', hsize'⟩ := LockFreeFifo.push_room hq (by omega) cmd
    rw [push_of_lt hlt]
    exact ⟨q', hpush, hq', hsize'.trans hsize⟩
  · have hroom := hq.room
    rw [push_of_not_lt hlt]
    exact ⟨q, LockFreeFifo.push_full hq (by omega) cmd, hq, hsize⟩

theorem Abstracts.pop {b : BoundedFifo} {q : LockFreeFifo Command} (h : b.Abstracts q) :
    ∃ q', Fifo.pop q = (q', (Fifo.pop b).2) ∧ (Fifo.pop b).1.Abstracts q' := by
  obtain ⟨hq, hsize⟩ := h
  obtain ⟨items, n⟩ := b
  cases items with
  | nil => exact ⟨q, LockFreeFifo.pop_nil hq, hq, hsize⟩
  | cons cmd items =>
    obtain ⟨q', hpop, hq', hsize'⟩ := LockFreeFifo.pop_cons hq
    exact ⟨q', hpop, hq', hsize'.trans hsize⟩

theorem Abstracts.empty {b : BoundedFifo} {q : LockFreeFifo Command} (h : b.Abstracts q) :
    Fifo.empty q = Fifo.empty b := by
  rw [Bool.eq_iff_iff]
  exact h.1.empty_iff.trans List.isEmpty_iff.symm

theorem Abstracts.contents {b : BoundedFifo} {q : LockFreeFifo Command} (h : b.Abstracts q) :
    Fifo.contents q = b.items := h.1.contents_eq

theorem Abstracts.capacity {b : BoundedFifo} {q : LockFreeFifo Command} (h : b.Abstracts q) :
    Fifo.capacity q = b.capacity := by
  have hcap := h.1.capacity_eq
  rw [h.2] at hcap
  exact hcap

end BoundedFifo

namespace Threads

/-! ## Lockstep -/

/-- The threads `t` over lists stand for the threads `s` over rings. -/
structure Sim (t : Threads BoundedFifo) (s : Threads (LockFreeFifo Command)) : Prop where
  inFifo : t.queue.inFifo.Abstracts s.queue.inFifo
  outFifo : t.queue.outFifo.Abstracts s.queue.outFifo
  active : t.queue.active = s.queue.active
  stack : t.stack = s.stack
  rt : t.rt = s.rt
  nextId : t.nextId = s.nextId
  executed : t.executed = s.executed
  cleaned : t.cleaned = s.cleaned
  lost : t.lost = s.lost

variable {t : Threads BoundedFifo} {s : Threads (LockFreeFifo Command)}

theorem Sim.goto (h : Sim t s) (fs : List Frame) : Sim (t.goto fs) (s.goto fs) :=
  { h with stack := rfl }

theorem Sim.setIn (h : Sim t s) {b : BoundedFifo} {q : LockFreeFifo Command} (hq : b.Abstracts q) :
    Sim (t.setIn b) (s.setIn q) := { h with inFifo := hq }

theorem Sim.setOut (h : Sim t s) {b : BoundedFifo} {q : LockFreeFifo Command}
    (hq : b.Abstracts q) : Sim (t.setOut b) (s.setOut q) := { h with outFifo := hq }

theorem Sim.execute (h : Sim t s) (cmd : Command) : Sim (t.execute cmd) (s.execute cmd) :=
  { h with executed := by simp only [Threads.execute, h.executed] }

theorem Sim.markCleaned (h : Sim t s) (cmd : Command) :
    Sim (t.markCleaned cmd) (s.markCleaned cmd) :=
  { h with cleaned := by simp only [Threads.markCleaned, h.cleaned] }

theorem Sim.lose (h : Sim t s) (cmd : Command) : Sim (t.lose cmd) (s.lose cmd) :=
  { h with lost := by simp only [Threads.lose, h.lost] }

theorem Sim.goRt (h : Sim t s) (rt : Rt) : Sim (t.goRt rt) (s.goRt rt) := { h with rt := rfl }

theorem Sim.setActive (h : Sim t s) (b : Bool) : Sim (t.setActive b) (s.setActive b) :=
  { h with active := rfl }

theorem Sim.spawn (h : Sim t s) (k : CommandKind) (fs : Command → List Frame) :
    Sim (t.spawn k fs) (s.spawn k fs) :=
  { h with
    stack := by simp only [Threads.spawn, h.nextId]
    nextId := by simp only [Threads.spawn, h.nextId] }

theorem Sim.cleanup (h : Sim t s) (cmd : Command) (fs : List Frame) :
    Sim (t.cleanup cmd fs) (s.cleanup cmd fs) := by
  unfold Threads.cleanup
  cases cmd.kind with
  | query => exact (h.markCleaned cmd).spawn _ _
  | plain | wait => exact (h.markCleaned cmd).goto fs

theorem Sim.enter (h : Sim t s) (c : Call) : Sim (t.enter c) (s.enter c) := by
  cases c with
  | push kind => exact h.spawn kind fun cmd => [.push cmd]
  | wait => exact h.spawn .wait fun cmd => [.push cmd, .cleanupCommands, .waitLoop cmd]
  | cleanupCommands | deactivate | reactivate => exact h.goto _

theorem Sim.nrt (h : Sim t s) : Option.Rel Sim t.nrt s.nrt := by
  unfold Threads.nrt
  rw [h.stack]
  cases s.stack with
  | nil => exact .none
  | cons f fs =>
    cases f with
    | push cmd =>
      refine .some ?_
      rw [h.active]
      split
      · exact h.goto _
      · exact (h.execute cmd).cleanup cmd fs
    | pushIn cmd =>
      obtain ⟨q, hpush, hq⟩ := h.inFifo.push cmd
      simp only [hpush]
      generalize Fifo.push t.queue.inFifo cmd = x at hq
      obtain ⟨b, ok⟩ := x
      cases ok with
      | false =>
        simp only [Bool.false_eq_true, if_false]
        exact .some h
      | true =>
        have hs := (h.setIn hq).goto fs
        simp only [if_true]
        exact .some hs
    | cleanupCommands =>
      obtain ⟨q, hpop, hq⟩ := h.outFifo.pop
      simp only [hpop]
      generalize Fifo.pop t.queue.outFifo = x at hq
      obtain ⟨b, _ | cmd⟩ := x <;> refine .some ?_
      · exact (h.setOut hq).goto fs
      · exact (h.setOut hq).cleanup cmd _
    | waitLoop cmd =>
      refine .some ?_
      rw [h.cleaned]
      by_cases hm : cmd ∈ s.cleaned
      · rw [if_pos hm, if_pos hm]
        exact h.goto fs
      · rw [if_neg hm, if_neg hm]
        exact h.goto _
    | deactivate =>
      refine .some ?_
      rw [h.inFifo.empty]
      cases Fifo.empty t.queue.inFifo with
      | false =>
        simp only [Bool.false_eq_true, if_false]
        exact h.goto fs
      | true =>
        have hs := (h.setActive false).goto fs
        simp only [if_true]
        exact hs
    | reactivate =>
      have hs := (h.setActive true).goto fs
      exact .some hs

theorem Sim.rtStep (h : Sim t s) : Sim t.rtStep s.rtStep := by
  unfold Threads.rtStep
  rw [h.rt]
  cases s.rt with
  | idle => exact h.goRt .loop
  | loop =>
    obtain ⟨q, hpop, hq⟩ := h.inFifo.pop
    simp only [hpop]
    generalize Fifo.pop t.queue.inFifo = x at hq
    obtain ⟨b, _ | cmd⟩ := x <;> simp only at hq ⊢
    · exact (h.setIn hq).goRt .idle
    · exact ((h.setIn hq).execute cmd).goRt (.holding cmd)
  | holding cmd =>
    obtain ⟨q, hpush, hq⟩ := h.outFifo.push cmd
    simp only [hpush]
    generalize Fifo.push t.queue.outFifo cmd = x at hq
    obtain ⟨b, _ | _⟩ := x <;> simp only at hq ⊢
    · exact (h.lose cmd).goRt .loop
    · exact (h.setOut hq).goRt .loop

/-- The two levels run in lockstep. -/
theorem sim_step (t : Threads BoundedFifo) (s : Threads (LockFreeFifo Command)) (a : Action)
    (h : Sim t s) : Option.Rel Sim (t.step a) (s.step a) := by
  cases a with
  | call c =>
    simp only [step, h.stack]
    split
    · exact .some (h.enter c)
    · exact .none
  | nrt => exact h.nrt
  | rt => exact .some h.rtStep

/-! ## The cases of a step -/

section
variable {Q : Type} [Fifo Q]

/-- A call is made outside of all member functions. -/
theorem call_cases {s s' : Threads Q} {c : Call} (h : s.step (.call c) = some s') :
    s.stack = [] ∧ s' = s.enter c := by
  simp only [step] at h
  split at h
  · rename_i hstack
    cases h
    exact ⟨hstack, rfl⟩
  · cases h

/-- What `nrt` does, by the frame on top of the stack. -/
inductive NrtStep (s : Threads Q) : Threads Q → Prop
  | push {cmd : Command} {fs : List Frame} (hstack : s.stack = .push cmd :: fs)
      (hactive : s.queue.active = true) :
      NrtStep s (s.goto (.cleanupCommands :: .pushIn cmd :: fs))
  | execute {cmd : Command} {fs : List Frame} (hstack : s.stack = .push cmd :: fs)
      (hactive : s.queue.active = false) : NrtStep s ((s.execute cmd).cleanup cmd fs)
  | pushIn {cmd : Command} {fs : List Frame} {q : Q} (hstack : s.stack = .pushIn cmd :: fs)
      (hpush : Fifo.push s.queue.inFifo cmd = (q, true)) : NrtStep s ((s.setIn q).goto fs)
  | full {cmd : Command} {fs : List Frame} {q : Q} (hstack : s.stack = .pushIn cmd :: fs)
      (hpush : Fifo.push s.queue.inFifo cmd = (q, false)) : NrtStep s s
  | drained {fs : List Frame} {q : Q} (hstack : s.stack = .cleanupCommands :: fs)
      (hpop : Fifo.pop s.queue.outFifo = (q, none)) : NrtStep s ((s.setOut q).goto fs)
  | cleanup {fs : List Frame} {q : Q} {cmd : Command} (hstack : s.stack = .cleanupCommands :: fs)
      (hpop : Fifo.pop s.queue.outFifo = (q, some cmd)) :
      NrtStep s ((s.setOut q).cleanup cmd (.cleanupCommands :: fs))
  | waited {cmd : Command} {fs : List Frame} (hstack : s.stack = .waitLoop cmd :: fs)
      (hdone : cmd ∈ s.cleaned) : NrtStep s (s.goto fs)
  | again {cmd : Command} {fs : List Frame} (hstack : s.stack = .waitLoop cmd :: fs)
      (hdone : cmd ∉ s.cleaned) : NrtStep s (s.goto (.cleanupCommands :: .waitLoop cmd :: fs))
  | deactivate {fs : List Frame} (hstack : s.stack = .deactivate :: fs)
      (hempty : Fifo.empty s.queue.inFifo = true) : NrtStep s ((s.setActive false).goto fs)
  | stillActive {fs : List Frame} (hstack : s.stack = .deactivate :: fs)
      (hempty : Fifo.empty s.queue.inFifo = false) : NrtStep s (s.goto fs)
  | reactivate {fs : List Frame} (hstack : s.stack = .reactivate :: fs) :
      NrtStep s ((s.setActive true).goto fs)

theorem nrt_cases {s s' : Threads Q} (h : s.nrt = some s') : NrtStep s s' := by
  unfold Threads.nrt at h
  split at h
  · cases h
  · rename_i hstack
    cases h
    split
    · rename_i hactive
      exact .push hstack hactive
    · rename_i hactive
      exact .execute hstack (Bool.eq_false_of_not_eq_true hactive)
  · rename_i hstack
    cases h
    split
    · rename_i hok
      exact .pushIn hstack (Prod.ext rfl hok)
    · rename_i hok
      exact .full hstack (Prod.ext rfl (Bool.eq_false_of_not_eq_true hok))
  · rename_i hstack
    split at h
    · rename_i hpop
      cases h
      exact .drained hstack hpop
    · rename_i hpop
      cases h
      exact .cleanup hstack hpop
  · rename_i hstack
    cases h
    split
    · rename_i hdone
      exact .waited hstack hdone
    · rename_i hdone
      exact .again hstack hdone
  · rename_i hstack
    cases h
    split
    · rename_i hempty
      exact .deactivate hstack hempty
    · rename_i hempty
      exact .stillActive hstack (Bool.eq_false_of_not_eq_true hempty)
  · rename_i hstack
    cases h
    exact .reactivate hstack

/-- What `rtStep` does. -/
inductive RtStep (s : Threads Q) : Threads Q → Prop
  | begin (hrt : s.rt = .idle) : RtStep s (s.goRt .loop)
  | finish {q : Q} (hrt : s.rt = .loop) (hpop : Fifo.pop s.queue.inFifo = (q, none)) :
      RtStep s ((s.setIn q).goRt .idle)
  | execute {q : Q} {cmd : Command} (hrt : s.rt = .loop)
      (hpop : Fifo.pop s.queue.inFifo = (q, some cmd)) :
      RtStep s (((s.setIn q).execute cmd).goRt (.holding cmd))
  | handBack {cmd : Command} {q : Q} (hrt : s.rt = .holding cmd)
      (hpush : Fifo.push s.queue.outFifo cmd = (q, true)) : RtStep s ((s.setOut q).goRt .loop)
  | lose {cmd : Command} {q : Q} (hrt : s.rt = .holding cmd)
      (hpush : Fifo.push s.queue.outFifo cmd = (q, false)) : RtStep s ((s.lose cmd).goRt .loop)

theorem rtStep_cases {s s' : Threads Q} (h : s.rtStep = s') : RtStep s s' := by
  subst h
  unfold Threads.rtStep
  split
  · rename_i hrt
    exact .begin hrt
  · rename_i hrt
    split
    · rename_i hpop
      exact .finish hrt hpop
    · rename_i hpop
      exact .execute hrt hpop
  · rename_i hrt
    split
    · rename_i hpush
      exact .handBack hrt hpush
    · rename_i hpush
      exact .lose hrt hpush

theorem rtStep_stack (s : Threads Q) : s.rtStep.stack = s.stack := by
  generalize hstep : s.rtStep = s'
  cases rtStep_cases hstep <;> rfl

theorem rtStep_active (s : Threads Q) : s.rtStep.queue.active = s.queue.active := by
  generalize hstep : s.rtStep = s'
  cases rtStep_cases hstep <;> rfl

end

/-! ## Accounting -/

section
variable {Q : Type} (s : Threads Q) (cmd : Command) (fs : List Frame)

@[simp] theorem cleanup_queue : (s.cleanup cmd fs).queue = s.queue := by
  unfold cleanup
  cases cmd.kind <;> rfl

@[simp] theorem cleanup_rt : (s.cleanup cmd fs).rt = s.rt := by
  unfold cleanup
  cases cmd.kind <;> rfl

@[simp] theorem cleanup_executed : (s.cleanup cmd fs).executed = s.executed := by
  unfold cleanup
  cases cmd.kind <;> rfl

@[simp] theorem cleanup_cleaned : (s.cleanup cmd fs).cleaned = s.cleaned ++ [cmd] := by
  unfold cleanup
  cases cmd.kind <;> rfl

@[simp] theorem cleanup_lost : (s.cleanup cmd fs).lost = s.lost := by
  unfold cleanup
  cases cmd.kind <;> rfl

end

/-- Nothing is lost, what is in flight fits into one of the FIFOs, both of capacity `n`, and every
executed command is handed back, but for the command `owed` that is just being moved. -/
structure Balanced (n : ℕ) (owed : List Command) (s : Threads BoundedFifo) : Prop where
  inCapacity : s.queue.inFifo.capacity = n
  outCapacity : s.queue.outFifo.capacity = n
  le : s.inFlight ≤ n
  lost : s.lost = []
  handedBack : ∀ cmd ∈ s.executed,
    cmd ∈ owed ∨ cmd ∈ s.cleaned ∨ cmd ∈ s.rt.held ∨ cmd ∈ s.queue.outFifo.items

variable {n : ℕ} {t u : Threads BoundedFifo} {cmd : Command}

theorem Balanced.goto {owed : List Command} (h : Balanced n owed t) (fs : List Frame) :
    Balanced n owed (t.goto fs) := { h with }

theorem Balanced.setActive (h : Balanced n [] t) (b : Bool) : Balanced n [] (t.setActive b) :=
  { h with }

theorem Balanced.enter (h : Balanced n [] t) (c : Call) : Balanced n [] (t.enter c) := by
  cases c <;> exact { h with }

theorem Balanced.execute (h : Balanced n [] t) (cmd : Command) :
    Balanced n [cmd] (t.execute cmd) := by
  refine { h with handedBack := fun c hc => ?_ }
  rcases List.mem_append.1 hc with hc | hc
  · exact .inr ((h.handedBack c hc).resolve_left (by simp))
  · exact .inl hc

theorem Balanced.cleanup (h : Balanced n [cmd] t) (fs : List Frame) :
    Balanced n [] (t.cleanup cmd fs) := by
  refine ⟨by simpa using h.inCapacity, by simpa using h.outCapacity,
    by simpa [inFlight] using h.le, by simpa using h.lost, fun c hc => ?_⟩
  have hb := h.handedBack c (by simpa using hc)
  simp only [cleanup_cleaned, cleanup_rt, cleanup_queue, List.mem_append] at hb ⊢
  tauto

theorem Balanced.pushIn (h : Balanced n [] t) (hlt : t.inFlight < n) (cmd : Command) :
    Balanced n [] (t.setIn (Fifo.push t.queue.inFifo cmd).1) := by
  have hin : t.queue.inFifo.items.length ≤ t.inFlight := by
    rw [inFlight, Nat.add_assoc]
    exact Nat.le_add_right _ _
  rw [BoundedFifo.push_of_lt (by rw [h.inCapacity]; omega)]
  refine { h with le := ?_ }
  simp only [inFlight, setIn, Fifo.contents, List.length_append, List.length_singleton] at hlt ⊢
  omega

theorem Balanced.popOut (h : Balanced n [] t) {b : BoundedFifo}
    (hpop : Fifo.pop t.queue.outFifo = (b, some cmd)) : Balanced n [cmd] (t.setOut b) := by
  have hq := BoundedFifo.pop_some hpop
  have hcap := h.outCapacity
  have hle := h.le
  simp only [inFlight, Fifo.contents, hq, List.length_cons] at hcap hle
  refine { h with outCapacity := hcap, le := ?_, handedBack := fun c hc => ?_ }
  · simp only [inFlight, setOut, Fifo.contents]
    omega
  · have hb := h.handedBack c hc
    simp only [hq, List.mem_cons] at hb
    simp only [setOut, List.mem_singleton]
    tauto

theorem Balanced.nrt (h : Balanced n [] t) (hroom : t.Room .nrt) (hstep : t.nrt = some u) :
    Balanced n [] u := by
  cases nrt_cases hstep with
  | push => exact h.goto _
  | execute => exact (h.execute _).cleanup _
  | @pushIn cmd fs q hstack hpush =>
    have hlt := hroom rfl cmd fs hstack (by rw [hpush])
    have hq := h.pushIn (by rw [← h.outCapacity]; exact hlt) cmd
    rw [hpush] at hq
    exact hq.goto fs
  | full => exact h
  | drained _ hpop =>
    obtain ⟨rfl, -⟩ := BoundedFifo.pop_none hpop
    exact h.goto _
  | cleanup _ hpop => exact (h.popOut hpop).cleanup _
  | waited | again | stillActive => exact h.goto _
  | deactivate => exact (h.setActive false).goto _
  | reactivate => exact (h.setActive true).goto _

theorem Balanced.rtStep (h : Balanced n [] t) : Balanced n [] t.rtStep := by
  have hle := h.le
  generalize hstep : t.rtStep = u
  cases rtStep_cases hstep with
  | begin hrt =>
    refine { h with le := ?_, handedBack := fun c hc => ?_ }
    · simpa [inFlight, hrt, goRt, Rt.held] using hle
    · simpa [hrt, goRt, Rt.held] using h.handedBack c hc
  | finish hrt hpop =>
    obtain ⟨rfl, -⟩ := BoundedFifo.pop_none hpop
    refine { h with le := ?_, handedBack := fun c hc => ?_ }
    · simpa [inFlight, hrt, goRt, setIn, Rt.held] using hle
    · simpa [hrt, goRt, setIn, Rt.held] using h.handedBack c hc
  | execute hrt hpop =>
    -- the popped command is executed and held
    have hq := BoundedFifo.pop_some hpop
    have hcap := h.inCapacity
    rw [hq] at hcap
    simp only [inFlight, Fifo.contents, hq, hrt, Rt.held, List.length_cons,
      List.length_nil] at hle
    refine { h with inCapacity := hcap, le := ?_, handedBack := fun c hc => ?_ }
    · simp only [inFlight, Fifo.contents, goRt, Threads.execute, setIn, Rt.held,
        List.length_singleton]
      omega
    · rcases List.mem_append.1 hc with hc | hc
      · have hb := h.handedBack c hc
        simp only [hrt, Rt.held] at hb
        simp only [goRt, Threads.execute, setIn]
        tauto
      · exact .inr (.inr (.inl hc))
  | handBack hrt hpush =>
    obtain ⟨-, rfl⟩ := BoundedFifo.push_true hpush
    refine { h with le := ?_, handedBack := fun c hc => ?_ }
    · simp only [inFlight, Fifo.contents, hrt, Rt.held, List.length_singleton] at hle
      simp only [inFlight, Fifo.contents, goRt, setOut, Rt.held, List.length_append,
        List.length_singleton, List.length_nil]
      omega
    · have hb := h.handedBack c hc
      simp only [hrt, Rt.held] at hb
      simp only [goRt, setOut, Rt.held, List.mem_append]
      tauto
  | lose hrt hpush =>
    -- there is room for what is held
    refine absurd ?_ (BoundedFifo.push_false hpush)
    simp only [inFlight, Fifo.contents, hrt, Rt.held, List.length_singleton] at hle
    have hcap := h.outCapacity
    omega

/-- **The balance is kept** by every step that meets `Room`. -/
theorem Balanced.step (h : Balanced n [] t) {a : Action} (hroom : t.Room a)
    (hstep : t.step a = some u) : Balanced n [] u := by
  cases a with
  | call c =>
    obtain ⟨-, rfl⟩ := call_cases hstep
    exact h.enter c
  | nrt => exact h.nrt hroom hstep
  | rt =>
    cases hstep
    exact h.rtStep

end Threads

end Apf
