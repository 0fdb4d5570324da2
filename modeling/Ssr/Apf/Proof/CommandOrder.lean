import Ssr.Apf.Proof.CommandLoss
import Ssr.Apf.Proof.LockFreeFifo
import Mathlib.Data.List.Nodup

/-!
# The order of the commands

`Ordered` is the invariant over the bounded lists: the commands that have been pushed are those that
have been executed, followed by those in `inFifo`. `Ordered.step` keeps it as long as the realtime
thread stands still while the queue is inactive: then the queue has been empty when it was
deactivated, and a `push` made meanwhile does not fill it. `commands_in_order_iff` is the result for
the rings; those of one slot lose commands, and then a later command is executed without them.
-/

set_option autoImplicit false

namespace Apf.Threads

open Lib

/-- The command that a frame has yet to push. -/
def Frame.pending : Frame → List Command
  | .push cmd | .pushIn cmd => [cmd]
  | _ => []

/-- `deactivate()` and `reactivate()` are not called by a `cleanup()`. -/
def WellStacked : List Frame → Prop
  | [] => True
  | .deactivate :: fs => fs = []
  | _ :: fs => WellStacked fs

/-- The invariant; `owed` is a command that is just being moved from execution to cleanup. -/
structure Ordered (pushed owed : List Command) (t : Threads BoundedFifo) : Prop where
  order : pushed = t.executed ++ t.queue.inFifo.items
  counted : ∀ cmd, owed.count cmd + t.cleaned.count cmd + t.rt.held.count cmd +
    t.queue.outFifo.items.count cmd + t.lost.count cmd = t.executed.count cmd
  ids : ((pushed ++ t.stack.flatMap Frame.pending).map Command.id).Perm (List.range t.nextId)
  stacked : WellStacked t.stack
  inactive : t.queue.active = false →
    t.queue.inFifo.items = [] ∧ t.rt = .idle ∧ ∀ cmd, Frame.pushIn cmd ∉ t.stack

variable {t u : Threads BoundedFifo} {pushed owed : List Command} {cmd : Command} {fs : List Frame}

theorem WellStacked.tail {f : Frame} (h : WellStacked (f :: fs)) : WellStacked fs := by
  match f, h with
  | .deactivate, h =>
    cases h
    trivial
  | .push _, h | .pushIn _, h | .cleanupCommands, h | .waitLoop _, h | .reactivate, h => exact h

/-! ## The non-realtime thread -/

theorem Ordered.goto (h : Ordered pushed owed t)
    (hpending : fs.flatMap Frame.pending = t.stack.flatMap Frame.pending) (hstacked : WellStacked fs)
    (hin : t.queue.active = false → ∀ cmd, Frame.pushIn cmd ∈ fs → Frame.pushIn cmd ∈ t.stack) :
    Ordered pushed owed (t.goto fs) := by
  refine { h with ids := ?_, stacked := hstacked, inactive := fun ha => ?_ }
  · simp only [Threads.goto, hpending]
    exact h.ids
  · obtain ⟨hempty, hrt, hnone⟩ := h.inactive ha
    exact ⟨hempty, hrt, fun cmd hcmd => hnone cmd (hin ha cmd hcmd)⟩

/-- One command more has an id. -/
theorem perm_range_insert {xs ys : List Command} {n : ℕ} (kind : CommandKind)
    (h : ((xs ++ ys).map Command.id).Perm (List.range n)) :
    ((xs ++ ⟨n, kind⟩ :: ys).map Command.id).Perm (List.range (n + 1)) := by
  rw [List.range_succ]
  calc ((xs ++ ⟨n, kind⟩ :: ys).map Command.id).Perm (((⟨n, kind⟩ :: (xs ++ ys)).map Command.id)) :=
        List.perm_middle.map _
    _ = n :: (xs ++ ys).map Command.id := rfl
    List.Perm _ (n :: List.range n) := h.cons n
    List.Perm _ (List.range n ++ [n]) := (List.perm_append_singleton n _).symm

theorem Ordered.spawn (h : Ordered pushed owed t) (kind : CommandKind) (frames : Command → List Frame)
    (hpending : ∀ cmd, (frames cmd).flatMap Frame.pending = cmd :: t.stack.flatMap Frame.pending)
    (hstacked : ∀ cmd, WellStacked (frames cmd))
    (hin : ∀ cmd cmd', Frame.pushIn cmd' ∈ frames cmd → Frame.pushIn cmd' ∈ t.stack) :
    Ordered pushed owed (t.spawn kind frames) := by
  refine { h with ids := ?_, stacked := hstacked _, inactive := fun ha => ?_ }
  · simp only [Threads.spawn, hpending]
    exact perm_range_insert kind h.ids
  · obtain ⟨hempty, hrt, hnone⟩ := h.inactive ha
    exact ⟨hempty, hrt, fun cmd hcmd => hnone cmd (hin _ cmd hcmd)⟩

/-- The `cleanup()` of the command that was owed; a query pushes again. -/
theorem Ordered.cleanup (h : Ordered pushed [cmd] (t.goto fs)) :
    Ordered pushed [] (t.cleanup cmd fs) := by
  have hclean : Ordered pushed [] ((t.markCleaned cmd).goto fs) := by
    refine { h with counted := fun c => ?_ }
    have hc := h.counted c
    simp only [Threads.goto, Threads.markCleaned, List.count_append, List.count_nil] at hc ⊢
    omega
  have hspawn := hclean.spawn .query (fun cmd => .push cmd :: fs) (fun _ => rfl)
    (fun _ => h.stacked) fun c c' hc => (List.mem_cons.1 hc).resolve_left (by simp)
  unfold Threads.cleanup
  cases cmd.kind with
  | query => exact hspawn
  | plain | wait => exact hclean

/-- A `push` while the queue is inactive. -/
theorem Ordered.execute (h : Ordered pushed [] t) (hstack : t.stack = .push cmd :: fs)
    (hactive : t.queue.active = false) :
    Ordered (pushed ++ [cmd]) [] ((t.execute cmd).cleanup cmd fs) := by
  have hids := h.ids
  have hstacked := h.stacked
  rw [hstack] at hids hstacked
  obtain ⟨hempty, hidle, hnone⟩ := h.inactive hactive
  refine Ordered.cleanup { h with
    order := ?_, counted := fun c => ?_, ids := ?_, stacked := hstacked, inactive := fun _ => ?_ }
  · simp only [Threads.goto, Threads.execute]
    rw [h.order, hempty, List.append_nil, List.append_nil]
  · have hc := h.counted c
    simp only [Threads.goto, Threads.execute, List.count_append, List.count_nil] at hc ⊢
    omega
  · rw [List.append_assoc]
    exact hids
  · refine ⟨hempty, hidle, fun c hc => hnone c ?_⟩
    rw [hstack]
    exact List.mem_cons_of_mem _ hc

/-- `_in_fifo.push` has returned `true`. -/
theorem Ordered.pushIn (h : Ordered pushed [] t) (hstack : t.stack = .pushIn cmd :: fs)
    {q : BoundedFifo} (hpush : Fifo.push t.queue.inFifo cmd = (q, true)) :
    Ordered (pushed ++ [cmd]) [] ((t.setIn q).goto fs) := by
  have hids := h.ids
  have hstacked := h.stacked
  rw [hstack] at hids hstacked
  obtain ⟨-, rfl⟩ := BoundedFifo.push_true hpush
  refine { h with order := ?_, ids := ?_, stacked := hstacked, inactive := fun ha => ?_ }
  · simp only [Threads.goto, Threads.setIn]
    rw [h.order, List.append_assoc]
  · rw [List.append_assoc]
    exact hids
  · refine absurd ?_ ((h.inactive ha).2.2 cmd)
    rw [hstack]
    exact List.mem_cons_self

/-- A command comes back from `_out_fifo`. -/
theorem Ordered.popOut (h : Ordered pushed [] t) (hstack : t.stack = .cleanupCommands :: fs)
    {q : BoundedFifo} (hpop : Fifo.pop t.queue.outFifo = (q, some cmd)) :
    Ordered pushed [] ((t.setOut q).cleanup cmd (.cleanupCommands :: fs)) := by
  have hids := h.ids
  have hstacked := h.stacked
  rw [hstack] at hids hstacked
  have hq := BoundedFifo.pop_some hpop
  refine Ordered.cleanup { h with
    counted := fun c => ?_, ids := hids, stacked := hstacked, inactive := fun ha => ?_ }
  · have hc := h.counted c
    rw [hq] at hc
    simp only [Threads.goto, Threads.setOut, List.count_cons, List.count_nil] at hc ⊢
    omega
  · rw [← hstack]
    exact h.inactive ha

theorem Ordered.nrt (h : Ordered pushed [] t) (hrt : t.RtStopped .nrt) (hstep : t.nrt = some u) :
    Ordered (pushed ++ t.pushes .nrt) [] u := by
  have hids := h.ids
  have hstacked := h.stacked
  cases nrt_cases hstep with
  | push hstack hactive =>
    rw [hstack] at hids hstacked
    simp only [pushes, hstack, hactive, if_true, List.append_nil]
    refine h.goto (by rw [hstack]; rfl) hstacked fun ha => ?_
    rw [hactive] at ha
    cases ha
  | execute hstack hactive =>
    simp only [pushes, hstack, hactive, Bool.false_eq_true, if_false]
    exact h.execute hstack hactive
  | pushIn hstack hpush =>
    simp only [pushes, hstack, hpush, if_true]
    exact h.pushIn hstack hpush
  | full hstack hpush =>
    simp only [pushes, hstack, hpush, Bool.false_eq_true, if_false, List.append_nil]
    exact h
  | drained hstack hpop =>
    rw [hstack] at hids hstacked
    simp only [pushes, hstack, List.append_nil]
    obtain ⟨rfl, -⟩ := BoundedFifo.pop_none hpop
    refine h.goto (by rw [hstack]; rfl) hstacked fun _ c hc => ?_
    rw [hstack]
    exact List.mem_cons_of_mem _ hc
  | cleanup hstack hpop =>
    simp only [pushes, hstack, List.append_nil]
    exact h.popOut hstack hpop
  | waited hstack =>
    rw [hstack] at hids hstacked
    simp only [pushes, hstack, List.append_nil]
    refine h.goto (by rw [hstack]; rfl) hstacked.tail fun _ c hc => ?_
    rw [hstack]
    exact List.mem_cons_of_mem _ hc
  | again hstack =>
    rw [hstack] at hids hstacked
    simp only [pushes, hstack, List.append_nil]
    refine h.goto (by rw [hstack]; rfl) hstacked fun _ c hc => ?_
    rw [hstack]
    simpa using hc
  | deactivate hstack hempty =>
    rw [hstack] at hids hstacked
    simp only [pushes, hstack, List.append_nil]
    -- nothing else is on the stack
    obtain rfl : _ = [] := hstacked
    refine { h with ids := hids, stacked := trivial, inactive := fun ha => ?_ }
    exact ⟨List.isEmpty_iff.1 hempty, (hrt _ hstep ha).2, by simp [Threads.goto]⟩
  | stillActive hstack =>
    rw [hstack] at hids hstacked
    simp only [pushes, hstack, List.append_nil]
    refine h.goto (by rw [hstack]; rfl) hstacked.tail fun _ c hc => ?_
    rw [hstack]
    exact List.mem_cons_of_mem _ hc
  | reactivate hstack =>
    rw [hstack] at hids hstacked
    simp only [pushes, hstack, List.append_nil]
    exact { h with ids := hids, stacked := hstacked.tail, inactive := fun ha => by cases ha }

/-! ## The realtime thread -/

theorem Ordered.rtStep (h : Ordered pushed [] t) (hactive : t.queue.active = true) :
    Ordered pushed [] t.rtStep := by
  have hcount := h.counted
  have hinactive : ∀ {P : Prop}, t.queue.active = false → P := fun ha => by
    cases hactive.symm.trans ha
  generalize hstep : t.rtStep = u
  cases rtStep_cases hstep with
  | begin hrt =>
    rw [hrt] at hcount
    exact { h with counted := hcount, inactive := hinactive }
  | finish hrt hpop =>
    rw [hrt] at hcount
    obtain ⟨rfl, -⟩ := BoundedFifo.pop_none hpop
    exact { h with counted := hcount, inactive := hinactive }
  | execute hrt hpop =>
    rw [hrt] at hcount
    have hq := BoundedFifo.pop_some hpop
    refine { h with order := ?_, counted := fun c => ?_, inactive := hinactive }
    · rw [h.order, hq]
      simp [Threads.goRt, Threads.execute, Threads.setIn]
    · have hc := hcount c
      simp only [Threads.goRt, Threads.execute, Threads.setIn, Rt.held, List.count_append,
        List.count_nil] at hc ⊢
      omega
  | handBack hrt hpush =>
    rw [hrt] at hcount
    obtain ⟨-, rfl⟩ := BoundedFifo.push_true hpush
    refine { h with counted := fun c => ?_, inactive := hinactive }
    have hc := hcount c
    simp only [Threads.goRt, Threads.setOut, Rt.held, List.count_append, List.count_nil] at hc ⊢
    omega
  | lose hrt =>
    rw [hrt] at hcount
    refine { h with counted := fun c => ?_, inactive := hinactive }
    have hc := hcount c
    simp only [Threads.goRt, Threads.lose, Rt.held, List.count_append, List.count_nil] at hc ⊢
    omega

/-- **The order is kept** by every step. -/
theorem Ordered.step (h : Ordered pushed [] t) {a : Action} (hrt : t.RtStopped a)
    (hstep : t.step a = some u) : Ordered (pushed ++ t.pushes a) [] u := by
  cases a with
  | call c =>
    simp only [pushes, List.append_nil]
    obtain ⟨hstack, rfl⟩ := call_cases hstep
    have hpending : t.stack.flatMap Frame.pending = [] := by rw [hstack]; rfl
    cases c with
    | push kind =>
      exact h.spawn kind (fun cmd => [.push cmd]) (fun cmd => by rw [hpending]; rfl)
        (fun _ => trivial) (by simp)
    | wait =>
      exact h.spawn .wait (fun cmd => [.push cmd, .cleanupCommands, .waitLoop cmd])
        (fun cmd => by rw [hpending]; rfl) (fun _ => trivial) (by simp)
    | cleanupCommands => exact h.goto hpending.symm trivial (by simp)
    | deactivate => exact h.goto hpending.symm rfl (by simp)
    | reactivate => exact h.goto hpending.symm trivial (by simp)
  | nrt => exact h.nrt hrt hstep
  | rt =>
    cases hstep
    simp only [pushes, List.append_nil]
    refine h.rtStep ?_
    by_contra hinactive
    rw [Bool.not_eq_true, ← rtStep_active] at hinactive
    exact (hrt _ rfl hinactive).1 rfl

/-! ## Histories -/

/-- What the invariant says of the commands. -/
theorem Ordered.nodup (h : Ordered pushed [] t) :
    pushed.Nodup ∧ t.executed.Nodup ∧ t.cleaned.Nodup ∧ ∀ cmd ∈ t.cleaned, cmd ∈ t.executed := by
  have hall : (pushed ++ t.stack.flatMap Frame.pending).Nodup :=
    List.Nodup.of_map _ (h.ids.nodup_iff.2 List.nodup_range)
  have hpushed := List.Nodup.of_append_left hall
  have hexecuted : t.executed.Nodup := by
    rw [h.order] at hpushed
    exact List.Nodup.of_append_left hpushed
  have hle : ∀ cmd, t.cleaned.count cmd ≤ t.executed.count cmd := fun cmd => by
    have := h.counted cmd
    omega
  refine ⟨hpushed, hexecuted, List.nodup_iff_count_le_one.2 fun cmd => ?_, fun cmd hcmd => ?_⟩
  · exact (hle cmd).trans (List.nodup_iff_count_le_one.1 hexecuted cmd)
  · exact List.count_pos_iff.1 (lt_of_lt_of_le (List.count_pos_iff.2 hcmd) (hle cmd))

theorem ordered_init (n : ℕ) :
    Ordered [] [] (init { inFifo := ⟨[], n⟩, outFifo := ⟨[], n⟩, active := true }) :=
  ⟨rfl, fun _ => rfl, List.Perm.refl _, trivial, fun h => by cases h⟩

/-- The histories over lists and over rings. -/
structure SimHistory (h : History BoundedFifo) (g : History (LockFreeFifo Command)) : Prop where
  threads : Sim h.threads g.threads
  pushed : h.pushed = g.pushed

variable {s : Threads (LockFreeFifo Command)}

theorem Sim.pushes (h : Sim t s) (a : Action) : t.pushes a = s.pushes a := by
  cases a with
  | call c => rfl
  | rt => rfl
  | nrt =>
    simp only [Threads.pushes, h.stack, h.active]
    split
    · rfl
    · rename_i cmd fs _
      obtain ⟨q, hpush, -⟩ := h.inFifo.push cmd
      rw [hpush]
    · rfl

theorem simHistory_step (h : History BoundedFifo) (g : History (LockFreeFifo Command)) (a : Action)
    (hsim : SimHistory h g) : Option.Rel SimHistory (h.step a) (g.step a) := by
  have hrel := sim_step h.threads g.threads a hsim.threads
  unfold History.step
  generalize h.threads.step a = x at hrel ⊢
  generalize g.threads.step a = y at hrel ⊢
  cases hrel with
  | none => exact .none
  | some hthreads => exact .some ⟨hthreads, by rw [hsim.pushed, hsim.threads.pushes a]⟩

theorem Sim.rtStopped (h : Sim t s) {a : Action} (hrt : s.RtStopped a) : t.RtStopped a := by
  intro t' ht' hactive
  have hrel := sim_step t s a h
  rw [ht'] at hrel
  generalize hs' : s.step a = y at hrel
  cases hrel with
  | some h' =>
    obtain ⟨hne, hidle⟩ := hrt _ hs' (h'.active ▸ hactive)
    exact ⟨hne, h'.rt.trans hidle⟩

/-- Every history of the rings is one of the lists. -/
theorem ordered_of_reach {maxSize fuel size : ℕ} {q : CommandQueue (LockFreeFifo Command)}
    (hsize : 2 ≤ size) (hq : CommandQueue.new maxSize fuel size = some q)
    {g : History (LockFreeFifo Command)}
    (hg : Reach History.step History.RtStopped (History.init q) g) :
    ∃ t, Sim t g.threads ∧ Ordered g.pushed [] t := by
  obtain ⟨n, hinit⟩ := sim_init hsize hq
  have hstart : SimHistory (.init { inFifo := ⟨[], n⟩, outFifo := ⟨[], n⟩, active := true })
    (.init q) := ⟨hinit, rfl⟩
  obtain ⟨h, hh, hsim⟩ := hg.lockstep simHistory_step (C := History.RtStopped)
    (fun _ _ _ h hrt => h.threads.rtStopped hrt) hstart
  refine ⟨h.threads, hsim.threads, hsim.pushed ▸ ?_⟩
  refine hh.inv (fun h => Ordered h.pushed [] h.threads) (ordered_init n) fun t u a ht hrt hs => ?_
  obtain ⟨v, hv, rfl⟩ := Option.map_eq_some_iff.1 hs
  exact ht.step hrt hv

/-- What is expected of the commands so far: they have been executed in the order of their `push`, each
at most once, and cleaned up at most once, after that; and if a `push` begins while the queue is
inactive then all commands are executed, and this one is executed and cleaned up at once. -/
structure InOrder (h : History (LockFreeFifo Command)) : Prop where
  executed : h.threads.executed <+: h.pushed
  pushed : h.pushed.Nodup
  cleaned : h.threads.cleaned.Nodup
  after : ∀ cmd ∈ h.threads.cleaned, cmd ∈ h.threads.executed
  inactive : ∀ cmd fs, h.threads.queue.active = false → h.threads.stack = .push cmd :: fs →
    h.threads.executed = h.pushed ∧ ∃ h', h.step .nrt = some h' ∧
      h'.pushed = h.pushed ++ [cmd] ∧ h'.threads.executed = h.threads.executed ++ [cmd] ∧
      h'.threads.cleaned = h.threads.cleaned ++ [cmd]

/-- The order is kept as long as `_out_fifo` does not overflow. -/
def CommandsInOrder (q : CommandQueue (LockFreeFifo Command)) : Prop :=
  ∀ h, Reach History.step History.RtStopped (History.init q) h → h.threads.lost = [] → InOrder h

variable {maxSize fuel size : ℕ} {q : CommandQueue (LockFreeFifo Command)}

/-- A queue that keeps its commands keeps them in order, whether `_out_fifo` overflows or not. -/
theorem inOrder_of_reach (hsize : 2 ≤ size) (hq : CommandQueue.new maxSize fuel size = some q)
    {h : History (LockFreeFifo Command)}
    (hs : Reach History.step History.RtStopped (History.init q) h) : InOrder h := by
  obtain ⟨t, hsim, hordered⟩ := ordered_of_reach hsize hq hs
  obtain ⟨hpushed, -, hcleaned, hafter⟩ := hordered.nodup
  rw [hsim.cleaned] at hcleaned hafter
  rw [hsim.executed] at hafter
  have horder := hordered.order
  rw [hsim.executed] at horder
  refine ⟨⟨_, horder.symm⟩, hpushed, hcleaned, hafter, fun cmd fs hactive hstack => ?_⟩
  obtain ⟨hempty, -, -⟩ := hordered.inactive (hsim.active.trans hactive)
  rw [hempty, List.append_nil] at horder
  refine ⟨horder.symm, ⟨(h.threads.execute cmd).cleanup cmd fs, h.pushed ++ [cmd]⟩, ?_, rfl, ?_, ?_⟩
  · simp [History.step, Threads.step, Threads.nrt, Threads.pushes, hstack, hactive]
  · rw [cleanup_executed]
    rfl
  · rw [cleanup_cleaned]
    rfl

/-! ## Rings of one slot -/

/-- The first command is pushed; then the queue is deactivated, and a second one is pushed. -/
def pushAndDeactivate : List Action :=
  [.call (.push .plain), .nrt, .nrt, .nrt, .call .deactivate, .nrt, .nrt, .call (.push .plain), .nrt]

/-- `_in_fifo.push` has returned `true`, and yet the first command is gone. -/
theorem run_oneSlot :
    let q : CommandQueue (LockFreeFifo Command) := ⟨.oneSlot, .oneSlot, true⟩
    AllSteps History.step History.RtStopped (History.init q) pushAndDeactivate ∧
      (run History.step (History.init q) pushAndDeactivate).map
        (fun h => (h.pushed, h.threads.executed, h.threads.lost)) =
          some ([⟨0, .plain⟩, ⟨1, .plain⟩], [⟨1, .plain⟩], []) := by
  decide +kernel

theorem not_commandsInOrder_oneSlot : ¬ CommandsInOrder ⟨.oneSlot, .oneSlot, true⟩ := by
  intro horder
  obtain ⟨hsteps, hrun⟩ := run_oneSlot
  obtain ⟨h, hh, heq⟩ := Option.map_eq_some_iff.1 hrun
  obtain ⟨hpushed, hexecuted, hlost⟩ : h.pushed = [⟨0, .plain⟩, ⟨1, .plain⟩] ∧
      h.threads.executed = [⟨1, .plain⟩] ∧ h.threads.lost = [] := by simpa using heq
  have hprefix := (horder h (.of_allSteps hh hsteps) hlost).executed
  rw [hpushed, hexecuted] at hprefix
  exact absurd hprefix (by decide)

theorem new_oneSlot (hsize : size ≤ 1) (hq : CommandQueue.new maxSize fuel size = some q) :
    q = ⟨.oneSlot, .oneSlot, true⟩ := by
  simp only [CommandQueue.new, Option.bind_eq_bind, Option.bind_eq_some_iff] at hq
  obtain ⟨i, hi, o, ho, hq⟩ := hq
  cases hq
  rw [LockFreeFifo.new_one hsize hi, LockFreeFifo.new_one hsize ho]

/-- **Commands are executed in the order of their `push`** exactly if the queue has been made for at
least two commands. -/
theorem commands_in_order_iff (hq : CommandQueue.new maxSize fuel size = some q) :
    CommandsInOrder q ↔ 2 ≤ size := by
  refine ⟨fun horder => ?_, fun hsize h hs _ => inOrder_of_reach hsize hq hs⟩
  by_contra hlt
  rw [new_oneSlot (by omega) hq] at horder
  exact not_commandsInOrder_oneSlot horder

/-- Two commands go through a queue of size 2, the second `push` cleans up the first one; then the
queue is deactivated and a third command is pushed. -/
def throughTheQueue : List Action :=
  [.call (.push .plain), .nrt, .nrt, .nrt, .rt, .rt, .rt, .rt,
    .call (.push .plain), .nrt, .nrt, .nrt, .nrt, .rt, .rt, .rt, .rt,
    .call .deactivate, .nrt, .nrt, .nrt, .call (.push .plain), .nrt]

theorem run_throughTheQueue :
    let q : CommandQueue (LockFreeFifo Command) :=
      ⟨⟨0, 0, 2, 1, [none, none]⟩, ⟨0, 0, 2, 1, [none, none]⟩, true⟩
    AllSteps History.step History.RtStopped (History.init q) throughTheQueue ∧
      (run History.step (History.init q) throughTheQueue).map
        (fun h => (h.threads.executed, h.threads.cleaned, h.threads.lost)) =
          some ([⟨0, .plain⟩, ⟨1, .plain⟩, ⟨2, .plain⟩],
            [⟨0, .plain⟩, ⟨1, .plain⟩, ⟨2, .plain⟩], []) := by
  decide +kernel

theorem commands_in_order_iff_two : ∃ q, CommandQueue.new (2 ^ 60 - 1) 64 2 = some q ∧
    ∃ h, run History.step (History.init q) throughTheQueue = some h ∧ InOrder h ∧
      h.threads.executed = [⟨0, .plain⟩, ⟨1, .plain⟩, ⟨2, .plain⟩] ∧
      h.threads.cleaned = [⟨0, .plain⟩, ⟨1, .plain⟩, ⟨2, .plain⟩] := by
  obtain ⟨q, hq⟩ : ∃ q, CommandQueue.new (2 ^ 60 - 1) 64 2 = some q := ⟨_, rfl⟩
  have horder : CommandsInOrder q := (commands_in_order_iff hq).2 le_rfl
  refine ⟨q, hq, ?_⟩
  cases hq
  obtain ⟨hsteps, hrun⟩ := run_throughTheQueue
  obtain ⟨h, hh, heq⟩ := Option.map_eq_some_iff.1 hrun
  obtain ⟨hexecuted, hcleaned, hlost⟩ : h.threads.executed = [⟨0, .plain⟩, ⟨1, .plain⟩, ⟨2, .plain⟩] ∧
      h.threads.cleaned = [⟨0, .plain⟩, ⟨1, .plain⟩, ⟨2, .plain⟩] ∧ h.threads.lost = [] := by
    simpa using heq
  exact ⟨h, hh, horder h (.of_allSteps hh hsteps) hlost, hexecuted, hcleaned⟩

/-- A queue of size 1: the first command is never executed, the second one is. -/
theorem commands_out_of_order_one : ∃ q, CommandQueue.new (2 ^ 60 - 1) 64 1 = some q ∧
    ¬ CommandsInOrder q ∧
    (run History.step (History.init q) pushAndDeactivate).map
      (fun h => (h.pushed, h.threads.executed, h.threads.lost)) =
        some ([⟨0, .plain⟩, ⟨1, .plain⟩], [⟨1, .plain⟩], []) := by
  obtain ⟨q, hq⟩ : ∃ q, CommandQueue.new (2 ^ 60 - 1) 64 1 = some q := ⟨_, rfl⟩
  refine ⟨q, hq, ?_⟩
  rw [new_oneSlot le_rfl hq]
  exact ⟨not_commandsInOrder_oneSlot, run_oneSlot.2⟩

end Apf.Threads
