import Ssr.Apf.Proof.CommandQueue

/-!
# When an executed command is lost

`drain`: a `cleanup_commands()` that is not disturbed empties `_out_fifo`, re-entrant pushes
included. `overflow`: with more in flight than `_out_fifo` takes, the realtime thread alone loses a
command. `executed_commands_handed_back` puts the two levels together: while every
`_in_fifo.push` finds `Room`, nothing is lost and every `wait()` can return, and no larger bound
would do.
-/

set_option autoImplicit false

namespace Apf

namespace Threads

open Lib

/-! ## The non-realtime thread alone -/

/-- The non-realtime thread takes `s` to `u` while the realtime thread does nothing. -/
def NrtRun (s u : Threads BoundedFifo) : Prop :=
  ∃ k, run step s (List.replicate k .nrt) = some u

variable {s t u : Threads BoundedFifo} {n : ℕ}

theorem NrtRun.refl : NrtRun s s := ⟨0, rfl⟩

theorem NrtRun.head (h : s.nrt = some t) (ht : NrtRun t u) : NrtRun s u := by
  obtain ⟨k, hk⟩ := ht
  refine ⟨k + 1, ?_⟩
  rw [List.replicate_succ, run_cons, step, h]
  exact hk

theorem NrtRun.trans (h : NrtRun s t) (ht : NrtRun t u) : NrtRun s u := by
  obtain ⟨k, hk⟩ := h
  obtain ⟨l, hl⟩ := ht
  refine ⟨k + l, ?_⟩
  rw [List.replicate_add, run_append, hk]
  exact hl

/-- After a `cleanup_commands()`: the FIFO for executed commands is empty, `fs` goes on. -/
structure Drained (s : Threads BoundedFifo) (fs : List Frame) (u : Threads BoundedFifo) :
    Prop where
  stack : u.stack = fs
  active : u.queue.active = true
  outItems : u.queue.outFifo.items = []
  cleaned : u.cleaned = s.cleaned ++ s.queue.outFifo.items
  inCapacity : u.queue.inFifo.capacity = s.queue.inFifo.capacity
  inItems : u.queue.inFifo.items.length ≤
    s.queue.inFifo.items.length + s.queue.outFifo.items.length

theorem nrt_cleanup_nil {fs : List Frame} (hstack : s.stack = .cleanupCommands :: fs)
    (hout : s.queue.outFifo.items = []) : s.nrt = some (s.goto fs) := by
  unfold Threads.nrt
  simp only [hstack, BoundedFifo.pop_of_nil hout]
  rfl

theorem nrt_cleanup_cons {fs : List Frame} {cmd : Command} {cmds : List Command}
    (hstack : s.stack = .cleanupCommands :: fs) (hout : s.queue.outFifo.items = cmd :: cmds) :
    s.nrt = some ((s.setOut { s.queue.outFifo with items := cmds }).cleanup cmd
      (.cleanupCommands :: fs)) := by
  unfold Threads.nrt
  simp only [hstack, BoundedFifo.pop_of_cons hout]

theorem nrt_push {fs : List Frame} {cmd : Command} (hstack : s.stack = .push cmd :: fs)
    (hactive : s.queue.active = true) :
    s.nrt = some (s.goto (.cleanupCommands :: .pushIn cmd :: fs)) := by
  unfold Threads.nrt
  simp only [hstack, hactive, if_true]

theorem nrt_pushIn {fs : List Frame} {cmd : Command} (hstack : s.stack = .pushIn cmd :: fs)
    (hlt : s.queue.inFifo.items.length < s.queue.inFifo.capacity) :
    s.nrt = some ((s.setIn
      { s.queue.inFifo with items := s.queue.inFifo.items ++ [cmd] }).goto fs) := by
  unfold Threads.nrt
  simp only [hstack, BoundedFifo.push_of_lt hlt, if_true]

theorem drain {cmds : List Command} {fs : List Frame} (hstack : s.stack = .cleanupCommands :: fs)
    (hactive : s.queue.active = true) (hout : s.queue.outFifo.items = cmds)
    (hroom : s.queue.inFifo.items.length + cmds.length ≤ s.queue.inFifo.capacity) :
    ∃ u, NrtRun s u ∧ Drained s fs u := by
  induction cmds generalizing s fs with
  | nil =>
    refine ⟨_, .head (nrt_cleanup_nil hstack hout) .refl, rfl, hactive, hout, ?_, rfl, ?_⟩
    · simp [hout, goto]
    · simp [goto]
  | cons cmd cmds ih =>
    have hnrt := nrt_cleanup_cons hstack hout
    rw [List.length_cons] at hroom
    by_cases hk : cmd.kind = .query
    · -- `cleanup()` pushes again, and the rest of this loop runs within that push
      simp only [cleanup, hk] at hnrt
      set q : Command := ⟨s.nextId, .query⟩ with hq
      set s₁ := ((s.setOut { s.queue.outFifo with items := cmds }).markCleaned cmd).spawn .query
        fun c => .push c :: .cleanupCommands :: fs
      have hpush : s₁.nrt = some (s₁.goto (.cleanupCommands :: .pushIn q :: .cleanupCommands :: fs)) :=
        nrt_push rfl hactive
      obtain ⟨u, hu, hd⟩ := ih (s := s₁.goto (.cleanupCommands :: .pushIn q :: .cleanupCommands :: fs))
        rfl hactive rfl (by show s.queue.inFifo.items.length + _ ≤ s.queue.inFifo.capacity; omega)
      have hin := hd.inItems
      have hcap := hd.inCapacity
      change _ ≤ s.queue.inFifo.items.length + cmds.length at hin
      change _ = s.queue.inFifo.capacity at hcap
      have hpushIn := nrt_pushIn hd.stack (by omega)
      have hend := nrt_cleanup_nil
        (s := (u.setIn { u.queue.inFifo with items := u.queue.inFifo.items ++ [q] }).goto
          (.cleanupCommands :: fs)) rfl hd.outItems
      refine ⟨_, .head hnrt (.head hpush (hu.trans (.head hpushIn (.head hend .refl)))), rfl,
        hd.active, hd.outItems, ?_, hcap, ?_⟩
      · have hc := hd.cleaned
        change u.cleaned = (s.cleaned ++ [cmd]) ++ cmds at hc
        show u.cleaned = _
        simp [hc, hout]
      · show (u.queue.inFifo.items ++ [q]).length ≤ _
        simp only [List.length_append, List.length_nil, hout, List.length_cons]
        omega
    · have hc : (s.setOut { s.queue.outFifo with items := cmds }).cleanup cmd
          (.cleanupCommands :: fs) = ((s.setOut { s.queue.outFifo with items := cmds }).markCleaned
            cmd).goto (.cleanupCommands :: fs) := by
        unfold cleanup
        split
        · rename_i h
          exact absurd h hk
        · rfl
      rw [hc] at hnrt
      obtain ⟨u, hu, hd⟩ := ih (s := ((s.setOut { s.queue.outFifo with items := cmds }).markCleaned
        cmd).goto (.cleanupCommands :: fs)) rfl hactive rfl
        (by show s.queue.inFifo.items.length + _ ≤ s.queue.inFifo.capacity; omega)
      have hin := hd.inItems
      change _ ≤ s.queue.inFifo.items.length + cmds.length at hin
      refine ⟨u, .head hnrt hu, hd.stack, hd.active, hd.outItems, ?_, hd.inCapacity, ?_⟩
      · have hc := hd.cleaned
        change u.cleaned = (s.cleaned ++ [cmd]) ++ cmds at hc
        simp [hc, hout]
      · simp only [hout, List.length_cons]
        omega

/-- One step of the realtime thread hands back what it holds. -/
theorem rtStep_handedBack {cmd : Command} (h : Balanced n [] s) (hx : cmd ∈ s.executed) :
    cmd ∈ s.rtStep.cleaned ∨ cmd ∈ s.rtStep.queue.outFifo.items := by
  have hb := h.handedBack cmd hx
  generalize hstep : s.rtStep = s'
  cases rtStep_cases hstep with
  | begin hrt => simpa [hrt, Rt.held, goRt] using hb
  | finish hrt => simpa [hrt, Rt.held, goRt, setIn] using hb
  | execute hrt => simpa [hrt, Rt.held, goRt, setIn, execute] using hb
  | handBack hrt hpush =>
    obtain ⟨-, rfl⟩ := BoundedFifo.push_true hpush
    simp only [hrt, Rt.held] at hb
    simp only [goRt, setOut, List.mem_append]
    tauto
  | lose hrt hpush =>
    have hle := h.le
    have hcap := h.outCapacity
    simp only [inFlight, Fifo.contents, hrt, Rt.held, List.length_singleton] at hle
    exact absurd (by omega) (BoundedFifo.push_false hpush)

theorem nrt_waitLoop {fs : List Frame} {cmd : Command} (hstack : s.stack = .waitLoop cmd :: fs)
    (hdone : cmd ∈ s.cleaned) : s.nrt = some (s.goto fs) := by
  unfold Threads.nrt
  simp only [hstack, if_pos hdone]

theorem nrt_waitLoop_again {fs : List Frame} {cmd : Command}
    (hstack : s.stack = .waitLoop cmd :: fs) (hdone : cmd ∉ s.cleaned) :
    s.nrt = some (s.goto (.cleanupCommands :: .waitLoop cmd :: fs)) := by
  unfold Threads.nrt
  simp only [hstack, if_neg hdone]

theorem wait_drain {cmd : Command} (h : Balanced n [] s) (hactive : s.queue.active = true)
    (hstack : s.stack = [.cleanupCommands, .waitLoop cmd])
    (hx : cmd ∈ s.cleaned ∨ cmd ∈ s.queue.outFifo.items) :
    ∃ u, NrtRun s u ∧ u.stack = [] ∧ cmd ∈ u.cleaned := by
  have hle := h.le
  have hcap := h.inCapacity
  simp only [inFlight, Fifo.contents] at hle
  obtain ⟨u, hu, hd⟩ := drain hstack hactive rfl (by omega)
  have hdone : cmd ∈ u.cleaned := by
    rw [hd.cleaned, List.mem_append]
    exact hx
  exact ⟨_, hu.trans (.head (nrt_waitLoop hd.stack hdone) .refl), rfl, hdone⟩

/-- **A `wait()` whose command is executed can return**: at the latest after one more step of the
realtime thread, the non-realtime thread gets there alone. -/
theorem wait_returns {cmd : Command} (h : Balanced n [] s) (hactive : s.queue.active = true)
    (hw : s.Waiting cmd) (hx : cmd ∈ s.executed) :
    ∃ u, NrtRun s.rtStep u ∧ u.stack = [] ∧ cmd ∈ u.cleaned := by
  have hb := rtStep_handedBack h hx
  have h' := h.rtStep
  have hactive' := (rtStep_active s).trans hactive
  have hstack := rtStep_stack s
  rcases hw with hw | hw
  · rw [hw] at hstack
    by_cases hdone : cmd ∈ s.rtStep.cleaned
    · exact ⟨_, .head (nrt_waitLoop hstack hdone) .refl, rfl, hdone⟩
    · obtain ⟨u, hu, hend⟩ := wait_drain (h'.goto [.cleanupCommands, .waitLoop cmd]) hactive' rfl hb
      exact ⟨u, .head (nrt_waitLoop_again hstack hdone) hu, hend⟩
  · exact wait_drain h' hactive' (hstack.trans hw) hb

/-! ## The realtime thread alone -/

/-- The realtime thread takes `s` to `u` while the non-realtime thread does nothing. -/
def RtRun (s u : Threads BoundedFifo) : Prop :=
  ∃ k, run step s (List.replicate k .rt) = some u

theorem RtRun.head (ht : RtRun s.rtStep u) : RtRun s u := by
  obtain ⟨k, hk⟩ := ht
  refine ⟨k + 1, ?_⟩
  rw [List.replicate_succ, run_cons]
  exact hk

theorem RtRun.one : RtRun s s.rtStep := ⟨1, rfl⟩

theorem rtStep_loop_cons {cmd : Command} {cmds : List Command} (hrt : s.rt = .loop)
    (hin : s.queue.inFifo.items = cmd :: cmds) :
    s.rtStep = ((s.setIn { s.queue.inFifo with items := cmds }).execute cmd).goRt
      (.holding cmd) := by
  unfold rtStep
  simp only [hrt, BoundedFifo.pop_of_cons hin]

theorem rtStep_holding {cmd : Command} (hrt : s.rt = .holding cmd)
    (hlt : s.queue.outFifo.items.length < s.queue.outFifo.capacity) :
    s.rtStep = (s.setOut
      { s.queue.outFifo with items := s.queue.outFifo.items ++ [cmd] }).goRt .loop := by
  unfold rtStep
  simp only [hrt, BoundedFifo.push_of_lt hlt]

theorem rtStep_full {cmd : Command} (hrt : s.rt = .holding cmd)
    (hfull : ¬ s.queue.outFifo.items.length < s.queue.outFifo.capacity) :
    s.rtStep = (s.lose cmd).goRt .loop := by
  unfold rtStep
  simp only [hrt, BoundedFifo.push_of_not_lt hfull]

theorem lost_of_full {cmd : Command} (hrt : s.rt = .holding cmd)
    (hfull : ¬ s.queue.outFifo.items.length < s.queue.outFifo.capacity) :
    RtRun s s.rtStep ∧ s.lost.length < s.rtStep.lost.length := by
  refine ⟨.one, ?_⟩
  rw [rtStep_full hrt hfull]
  simp [goRt, lose]

theorem overflow_loop {cmds : List Command} (hrt : s.rt = .loop)
    (hin : s.queue.inFifo.items = cmds)
    (hle : s.queue.outFifo.items.length ≤ s.queue.outFifo.capacity)
    (hgt : s.queue.outFifo.capacity < cmds.length + s.queue.outFifo.items.length) :
    ∃ u, RtRun s u ∧ s.lost.length < u.lost.length := by
  induction cmds generalizing s with
  | nil =>
    rw [List.length_nil] at hgt
    omega
  | cons cmd cmds ih =>
    rw [List.length_cons] at hgt
    have hpop := rtStep_loop_cons hrt hin
    set s₁ := ((s.setIn { s.queue.inFifo with items := cmds }).execute cmd).goRt (.holding cmd)
    by_cases hlt : s₁.queue.outFifo.items.length < s₁.queue.outFifo.capacity
    · have hpush := rtStep_holding (s := s₁) rfl hlt
      set s₂ := (s₁.setOut
        { s₁.queue.outFifo with items := s₁.queue.outFifo.items ++ [cmd] }).goRt .loop
      have hlen : s₂.queue.outFifo.items.length = s.queue.outFifo.items.length + 1 := by
        show (s.queue.outFifo.items ++ [cmd]).length = _
        simp
      obtain ⟨u, hu, hlost⟩ := ih (s := s₂) rfl rfl (by rw [hlen]; exact hlt)
        (by rw [hlen]; show s.queue.outFifo.capacity < _; omega)
      refine ⟨u, .head ?_, hlost⟩
      rw [hpop]
      refine .head ?_
      rw [hpush]
      exact hu
    · obtain ⟨hu, hlost⟩ := lost_of_full (s := s₁) rfl hlt
      refine ⟨_, .head ?_, hlost⟩
      rw [hpop]
      exact hu

/-- **Too much in flight**: the realtime thread alone loses a command. -/
theorem overflow (hle : s.queue.outFifo.items.length ≤ s.queue.outFifo.capacity)
    (hgt : s.queue.outFifo.capacity < s.inFlight) :
    ∃ u, RtRun s u ∧ s.lost.length < u.lost.length := by
  simp only [inFlight, Fifo.contents] at hgt
  cases hrt : s.rt with
  | idle =>
    have hidle : s.rtStep = s.goRt .loop := by
      unfold rtStep
      simp only [hrt]
    simp only [hrt, Rt.held, List.length_nil] at hgt
    obtain ⟨u, hu, hlost⟩ := overflow_loop (s := s.goRt .loop) rfl rfl hle (by
      show s.queue.outFifo.capacity < s.queue.inFifo.items.length + s.queue.outFifo.items.length
      omega)
    exact ⟨u, .head (hidle ▸ hu), hlost⟩
  | loop =>
    simp only [hrt, Rt.held, List.length_nil] at hgt
    exact overflow_loop hrt rfl hle (by omega)
  | holding cmd =>
    simp only [hrt, Rt.held, List.length_singleton] at hgt
    by_cases hlt : s.queue.outFifo.items.length < s.queue.outFifo.capacity
    · have hpush := rtStep_holding hrt hlt
      set s₁ := (s.setOut
        { s.queue.outFifo with items := s.queue.outFifo.items ++ [cmd] }).goRt .loop
      have hlen : s₁.queue.outFifo.items.length = s.queue.outFifo.items.length + 1 := by
        show (s.queue.outFifo.items ++ [cmd]).length = _
        simp
      obtain ⟨u, hu, hlost⟩ := overflow_loop (s := s₁) rfl rfl (by rw [hlen]; exact hlt)
        (by
          rw [hlen]
          show s.queue.outFifo.capacity < s.queue.inFifo.items.length + _
          omega)
      exact ⟨u, .head (hpush ▸ hu), hlost⟩
    · exact ⟨_, lost_of_full hrt hlt⟩

/-! ## Over the rings -/

/-- A new command queue stands for two empty lists that take one command less than the ring. -/
theorem sim_init {maxSize fuel size : ℕ} {q : CommandQueue (LockFreeFifo Command)} (hsize : 2 ≤ size)
    (hq : CommandQueue.new maxSize fuel size = some q) :
    ∃ n, Sim (init { inFifo := ⟨[], n⟩, outFifo := ⟨[], n⟩, active := true }) (init q) := by
  simp only [CommandQueue.new, Option.bind_eq_bind, Option.bind_eq_some_iff] at hq
  obtain ⟨i, hi, o, ho, hq⟩ := hq
  obtain rfl : i = o := Option.some_injective _ (hi.symm.trans ho)
  cases hq
  obtain ⟨hi', -⟩ := LockFreeFifo.new_holds hsize hi
  have hpos := hi'.two_le
  have habs : BoundedFifo.Abstracts ⟨[], i.size - 1⟩ i :=
    ⟨hi', (Nat.sub_add_cancel (Nat.le_of_succ_le hpos)).symm⟩
  exact ⟨i.size - 1, habs, habs, rfl, rfl, rfl, rfl, rfl, rfl, rfl⟩

theorem balanced_init (n : ℕ) :
    Balanced n [] (init { inFifo := ⟨[], n⟩, outFifo := ⟨[], n⟩, active := true }) :=
  ⟨rfl, rfl, Nat.zero_le n, rfl, by simp [init]⟩

variable {s' : Threads (LockFreeFifo Command)}

theorem Sim.inFlight (h : Sim t s') : t.inFlight = s'.inFlight := by
  unfold Threads.inFlight
  rw [h.inFifo.contents, h.outFifo.contents, h.rt]
  rfl

theorem Sim.room (h : Sim t s') {a : Action} (hroom : s'.Room a) : t.Room a := by
  intro ha cmd fs hstack hok
  obtain ⟨q, hpush, -⟩ := h.inFifo.push cmd
  have hlt := hroom ha cmd fs (h.stack ▸ hstack) (by rw [hpush]; exact hok)
  rw [← h.inFlight, h.outFifo.capacity] at hlt
  exact hlt

theorem Sim.outItems_le (h : Sim t s') :
    t.queue.outFifo.items.length ≤ t.queue.outFifo.capacity := by
  obtain ⟨hq, hsize⟩ := h.outFifo
  have := hq.room
  omega

/-- A run of the lists is a run of the rings. -/
theorem Sim.run (h : Sim t s') {as : List Action} (hu : Lib.run step t as = some u) :
    ∃ u', Lib.run step s' as = some u' ∧ Sim u u' := by
  have hrel := run_lockstep sim_step h as
  rw [hu] at hrel
  generalize hx : Lib.run step s' as = x at hrel
  cases hrel with
  | some h' => exact ⟨_, rfl, h'⟩

/-- **No executed command is lost while every `_in_fifo.push` finds room**, a `wait()` whose command
is executed can return, and the bound is sharp: in every reachable state with more in flight the
realtime thread alone loses a command. -/
theorem executed_commands_handed_back {maxSize fuel size : ℕ} {q : CommandQueue (LockFreeFifo Command)}
    (hsize : 2 ≤ size) (hq : CommandQueue.new maxSize fuel size = some q) :
    (∀ s, Reach step Room (init q) s → s.lost = [] ∧ s.HandedBack ∧
      ∀ cmd ∈ s.executed, s.queue.active = true → s.Waiting cmd →
        ∃ as u, Lib.run step s as = some u ∧ u.stack = [] ∧ cmd ∈ u.cleaned) ∧
    (∀ s, Reach step (fun _ _ => True) (init q) s →
      Fifo.capacity s.queue.outFifo < s.inFlight →
        ∃ k u, Lib.run step s (List.replicate k .rt) = some u ∧ s.lost.length < u.lost.length) := by
  obtain ⟨n, hinit⟩ := sim_init hsize hq
  refine ⟨fun s hs => ?_, fun s hs hgt => ?_⟩
  · obtain ⟨t, ht, hsim⟩ := hs.lockstep sim_step (C := Room) (fun _ _ _ h hr => h.room hr) hinit
    have hbal : Balanced n [] t :=
      ht.inv _ (balanced_init n) fun _ _ _ h hr hstep => h.step hr hstep
    refine ⟨hsim.lost ▸ hbal.lost, fun cmd hx => ?_, fun cmd hx hactive hw => ?_⟩
    · have hb := hbal.handedBack cmd (hsim.executed ▸ hx)
      rw [hsim.outFifo.contents, ← hsim.cleaned, ← hsim.rt]
      exact hb.resolve_left (by simp)
    · have hw' : t.Waiting cmd := by
        unfold Waiting
        rw [hsim.stack]
        exact hw
      obtain ⟨u, ⟨k, hk⟩, hstack, hdone⟩ :=
        wait_returns hbal (hsim.active.trans hactive) hw' (hsim.executed ▸ hx)
      have hrun : Lib.run step t (.rt :: List.replicate k .nrt) = some u := by
        rw [run_cons]
        exact hk
      obtain ⟨u', hu', hsim'⟩ := hsim.run hrun
      exact ⟨_, u', hu', hsim'.stack ▸ hstack, hsim'.cleaned ▸ hdone⟩
  · obtain ⟨t, -, hsim⟩ := hs.lockstep sim_step (C := fun _ _ => True) (fun _ _ _ _ h => h) hinit
    rw [← hsim.inFlight, hsim.outFifo.capacity] at hgt
    obtain ⟨u, ⟨k, hk⟩, hlost⟩ := overflow hsim.outItems_le hgt
    obtain ⟨u', hu', hsim'⟩ := hsim.run hk
    exact ⟨k, u', hu', hsim.lost ▸ hsim'.lost ▸ hlost⟩

theorem executed_commands_handed_back_two :
    ∃ q, CommandQueue.new (2 ^ 60 - 1) 64 2 = some q ∧
      ∀ s, Reach step Room (init q) s → s.lost = [] ∧ s.HandedBack := by
  obtain ⟨q, hq⟩ : ∃ q, CommandQueue.new (2 ^ 60 - 1) 64 2 = some q := ⟨_, rfl⟩
  refine ⟨q, hq, fun s hs => ?_⟩
  have h := (executed_commands_handed_back (by decide) hq).1 s hs
  exact ⟨h.1, h.2.1⟩

/-- Two commands go through a queue of size 2 while the second `push` is under way. -/
def overtaking : List Action :=
  [.call (.push .plain), .nrt, .nrt, .nrt,  -- the first command is in `_in_fifo`
    .call (.push .plain), .nrt, .nrt,  -- the second `push` has found nothing to clean up
    .rt, .rt, .rt,  -- the first command goes through `_out_fifo.push`
    .nrt,  -- the second command is in `_in_fifo`
    .rt, .rt]

/-- With queue size 2 the second `_out_fifo.push` fails. -/
theorem command_lost_of_size_two :
    ¬ ∀ maxSize fuel size q, 2 ≤ size → CommandQueue.new maxSize fuel size = some q →
      ∀ as s, Lib.run step (init q) as = some s → s.lost = [] := by
  intro h
  have hrun : ((CommandQueue.new (2 ^ 60 - 1) 64 2).bind fun q =>
      (Lib.run step (init q) overtaking).map fun s => s.lost) = some [⟨1, .plain⟩] := by
    decide +kernel
  obtain ⟨q, hq, hs⟩ := Option.bind_eq_some_iff.1 hrun
  obtain ⟨s, hs, hlost⟩ := Option.map_eq_some_iff.1 hs
  rw [h (2 ^ 60 - 1) 64 2 q (by decide) hq overtaking s hs] at hlost
  cases hlost

end Threads

end Apf
