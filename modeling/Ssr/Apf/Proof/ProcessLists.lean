import Ssr.Apf.ProcessLists
import Ssr.Apf.Proof.MimoProcessor
import Mathlib.Algebra.BigOperators.Group.Finset.Basic
import Mathlib.Algebra.Group.Nat.Defs
import Mathlib.Order.Interval.Finset.Nat

/-!
# Two lists at once are processed and restored

`_process_list()` returns: as long as it has not returned some thread can take a step
(`Consistent.progress`), and every step takes one from a number of steps that are left
(`Consistent.stepsLeft_main`, `stepsLeft_worker`). Around it, `Restorable` says at each point of
`_process_list(l1, l2)` where the nodes of the lists are and what `temp` points to.
-/

set_option autoImplicit false

namespace Apf

open Lib

variable {L I : Type} {numThreads : ℕ}

/-! ## `_process_list()` returns -/

/-- The steps of a walk over `n` items that are left. -/
def Walk.stepsLeft (n : ℕ) : Walk L I → ℕ
  | .begin => 2 * n + 2
  | .next _ k => 2 * (n - k) + 1
  | .busy _ k _ => 2 * (n - k)

def Worker.stepsLeft (n : ℕ) (w : Worker L I) : ℕ :=
  match w.pc with
  | .waiting => w.contSemaphore * (2 * n + 5)
  | .walking walk => walk.stepsLeft n + 2
  | .posting => 1

/-- Waking a worker counts one step more than the steps that it gives to the worker. -/
def MainPc.stepsLeft (numThreads n : ℕ) : MainPc L I → ℕ
  | .outside => 0
  | .test => numThreads * (2 * n + 6) + (2 * n + numThreads + 6)
  | .wake i => (numThreads - i) * (2 * n + 6) + (2 * n + numThreads + 5)
  | .walking walk => walk.stepsLeft n + numThreads + 2
  | .join i => numThreads - i + 1

namespace MimoProcessor

variable {s t : MimoProcessor L I}

def stepsLeft (numThreads : ℕ) (s : MimoProcessor L I) : ℕ :=
  s.main.stepsLeft numThreads s.given.length +
    ∑ i ∈ Finset.Ico 1 numThreads, (s.workers i).stepsLeft s.given.length

theorem sum_update (n : ℕ) (workers : ℕ → Worker L I) {i : ℕ} (hi : 0 < i)
    (hlt : i < numThreads) (w : Worker L I) :
    ∑ j ∈ Finset.Ico 1 numThreads, (Function.update workers i w j).stepsLeft n +
        (workers i).stepsLeft n =
      ∑ j ∈ Finset.Ico 1 numThreads, (workers j).stepsLeft n + w.stepsLeft n := by
  have hmem : i ∈ Finset.Ico 1 numThreads := Finset.mem_Ico.2 ⟨hi, hlt⟩
  have hrest : ∀ j ∈ (Finset.Ico 1 numThreads).erase i,
      (Function.update workers i w j).stepsLeft n = (workers j).stepsLeft n := by
    intro j hj
    rw [Function.update_of_ne (Finset.ne_of_mem_erase hj)]
  rw [← Finset.add_sum_erase _ _ hmem, ← Finset.add_sum_erase _ _ hmem, Finset.sum_congr rfl hrest,
    Function.update_self]
  omega

theorem walk_stepsLeft {i : ℕ} {l : L} (hgiven : s.lists l = s.given) {done : List I}
    {walk : Walk L I} (h : WalkOk numThreads i l s.given done walk)
    {r : Option (Walk L I) × List I} (hs : s.walkStep numThreads i walk = some r) :
    (r.1.elim 0 (Walk.stepsLeft s.given.length)) < walk.stepsLeft s.given.length := by
  cases walk with
  | begin =>
    simp only [walkStep, Option.map_eq_some_iff] at hs
    obtain ⟨_, -, rfl⟩ := hs
    simp only [Option.elim_some, Walk.stepsLeft]
    omega
  | next l' n =>
    obtain ⟨rfl, -, -⟩ := h
    simp only [walkStep, hgiven] at hs
    split at hs
    · cases hs
      exact Nat.succ_pos _
    · rename_i hitem
      obtain ⟨hlt, -⟩ := List.getElem?_eq_some_iff.1 hitem
      split at hs
      · cases hs
        exact Nat.lt_succ_self _
      · cases hs
        simp only [Option.elim_some, Walk.stepsLeft]
        omega
  | busy l' n item =>
    obtain ⟨-, hitem, -⟩ := h
    obtain ⟨hlt, -⟩ := List.getElem?_eq_some_iff.1 hitem
    cases hs
    simp only [Option.elim_some, Walk.stepsLeft]
    omega

/-- Another state of the worker `i`, with fewer steps left. -/
theorem stepsLeft_setWorker {i : ℕ} (hi : 0 < i) (hlt : i < numThreads) {w : Worker L I}
    (hw : w.stepsLeft s.given.length < (s.workers i).stepsLeft s.given.length) :
    (s.setWorker i w).stepsLeft numThreads < s.stepsLeft numThreads := by
  have hsum := sum_update s.given.length s.workers hi hlt w
  simp only [stepsLeft, MimoProcessor.setWorker]
  omega

theorem Consistent.stepsLeft_worker (h : Consistent numThreads s) {i : ℕ} (hi : 0 < i)
    (hlt : i < numThreads) (hs : s.workerStep numThreads i = some t) :
    t.stepsLeft numThreads < s.stepsLeft numThreads := by
  cases (h.worker_cases hi hlt hs).2 with
  | start hidle =>
    refine stepsLeft_setWorker hi hlt ?_
    obtain ⟨hpc, hcont, -, -⟩ := hidle
    simp only [Worker.stepsLeft, hpc, hcont, Walk.stepsLeft]
    omega
  | walk walk l r hpc _ _ _ hgiven hwalk hstep =>
    refine stepsLeft_setWorker hi hlt ?_
    have hless := walk_stepsLeft hgiven hwalk hstep
    obtain ⟨next, items⟩ := r
    simp only [Worker.stepsLeft, hpc]
    cases next with
    | none => exact Nat.lt_add_left _ Nat.one_lt_two
    | some next => exact Nat.add_lt_add_right hless 2
  | post hpc hcont _ _ =>
    refine stepsLeft_setWorker hi hlt ?_
    simp [Worker.stepsLeft, hpc, hcont]

theorem Consistent.stepsLeft_main (h : Consistent numThreads s)
    (hs : s.mainStep numThreads = some t) :
    t.stepsLeft numThreads < s.stepsLeft numThreads := by
  cases h.main_cases hs with
  | empty hpc _ _ =>
    simp only [stepsLeft, hpc, MainPc.stepsLeft]
    omega
  | fill l hpc _ _ _ =>
    have hle : (numThreads - 1) * (2 * s.given.length + 6) ≤
        numThreads * (2 * s.given.length + 6) := Nat.mul_le_mul_right _ (Nat.sub_le _ _)
    simp only [stepsLeft, hpc, MainPc.stepsLeft]
    omega
  | wake j hpc hj hlt _ hw =>
    have hsum := sum_update s.given.length s.workers hj hlt
      { s.workers j with contSemaphore := (s.workers j).contSemaphore + 1 }
    obtain ⟨hwpc, hcont, -, -⟩ := hw
    obtain ⟨k, hk⟩ : ∃ k, numThreads - j = k + 1 := ⟨numThreads - j - 1, by omega⟩
    have hk' : numThreads - (j + 1) = k := by omega
    simp only [stepsLeft, hpc, MainPc.stepsLeft, MimoProcessor.setWorker, hk, hk', Nat.succ_mul]
    simp only [Worker.stepsLeft, hwpc, hcont] at hsum ⊢
    omega
  | woken j hpc _ _ =>
    simp only [stepsLeft, hpc, MainPc.stepsLeft, Walk.stepsLeft]
    omega
  | walk walk l r hpc _ hgiven hwalk hstep =>
    have hless := walk_stepsLeft hgiven hwalk hstep
    obtain ⟨next, items⟩ := r
    simp only [stepsLeft, hpc, MainPc.stepsLeft]
    cases next with
    | none =>
      simp only [Option.elim_none]
      omega
    | some next =>
      simp only [Option.elim_some] at hless ⊢
      omega
  | join j hpc hj hlt _ _ =>
    have hsum := sum_update s.given.length s.workers hj hlt
      { s.workers j with waitSemaphore := (s.workers j).waitSemaphore - 1 }
    simp only [stepsLeft, hpc, MainPc.stepsLeft, MimoProcessor.setWorker]
    simp only [Worker.stepsLeft] at hsum ⊢
    omega
  | joined j hpc _ _ =>
    simp only [stepsLeft, hpc, MainPc.stepsLeft]
    omega

/-- **Progress**: within `_process_list()` some thread can take a step. -/
theorem Consistent.progress (h : Consistent numThreads s) (hinside : s.main ≠ .outside) :
    (∃ t, s.mainStep numThreads = some t) ∨
      ∃ i, 0 < i ∧ i < numThreads ∧ ∃ t, s.workerStep numThreads i = some t := by
  obtain ⟨l, hl, hgiven⟩ := h.list hinside
  have hmain := h.main
  have hwalk : ∀ i (walk : Walk L I), ∃ r, s.walkStep numThreads i walk = some r := by
    intro i walk
    cases walk with
    | begin => exact ⟨_, by rw [walkStep, hl]; rfl⟩
    | next l n =>
      simp only [walkStep]
      split
      · exact ⟨_, rfl⟩
      · split <;> exact ⟨_, rfl⟩
    | busy l n item => exact ⟨_, rfl⟩
  cases hpc : s.main with
  | outside => exact absurd hpc hinside
  | test => exact .inl ⟨_, by simp only [MimoProcessor.mainStep, hpc, hl]; rfl⟩
  | wake j =>
    refine .inl ?_
    simp only [MimoProcessor.mainStep, hpc]
    split <;> exact ⟨_, rfl⟩
  | walking walk =>
    obtain ⟨⟨next, items⟩, hr⟩ := hwalk 0 walk
    refine .inl ?_
    simp only [MimoProcessor.mainStep, hpc, hr]
    cases next <;> exact ⟨_, rfl⟩
  | join j =>
    by_cases hlt : j < numThreads
    · obtain ⟨hj, -⟩ : 0 < j ∧ s.processed = selected numThreads 0 s.given := by
        rw [hpc] at hmain
        exact hmain
      have hw := h.workers j hj hlt
      rw [hpc, MainPc.phase, if_neg (Nat.lt_irrefl j)] at hw
      -- the worker that is waited for is at work, or it is ready
      cases hw with
      | woken hidle =>
        refine .inr ⟨j, hj, hlt, ?_⟩
        simp [MimoProcessor.workerStep, hidle.1, hidle.2.1]
      | walking walk _ hwpc =>
        obtain ⟨⟨next, items⟩, hr⟩ := hwalk j walk
        refine .inr ⟨j, hj, hlt, ?_⟩
        simp only [MimoProcessor.workerStep, hwpc, hr]
        cases next <;> exact ⟨_, rfl⟩
      | posting hwpc =>
        refine .inr ⟨j, hj, hlt, ?_⟩
        simp [MimoProcessor.workerStep, hwpc]
      | ready hidle =>
        refine .inl ?_
        simp [MimoProcessor.mainStep, hpc, hlt, hidle.2.2.1]
    · refine .inl ?_
      simp [MimoProcessor.mainStep, hpc, hlt]

/-- Before the call of `_process_list()` and once it has been entered. -/
theorem Consistent.stepsLeft_call (h : Consistent numThreads s) (hout : s.main = .outside) (l : L) :
    (s.call l).stepsLeft numThreads =
      (MainPc.test : MainPc L I).stepsLeft numThreads (s.lists l).length := by
  have hworkers := h.workers
  rw [hout] at hworkers
  have hidle : ∀ i ∈ Finset.Ico 1 numThreads,
      ((s.call l).workers i).stepsLeft (s.call l).given.length = 0 := by
    intro i hi
    obtain ⟨hpos, hlt⟩ := Finset.mem_Ico.1 hi
    obtain ⟨hpc, hcont, -, -⟩ := hworkers i hpos hlt
    simp [MimoProcessor.call, Worker.stepsLeft, hpc, hcont]
  rw [stepsLeft, Finset.sum_eq_zero hidle]
  rfl

theorem Consistent.worker_frame (h : Consistent numThreads s) {i : ℕ} (hi : 0 < i)
    (hlt : i < numThreads) (hs : s.workerStep numThreads i = some t) :
    t.main = s.main ∧ t.lists = s.lists ∧ t.given = s.given := by
  cases (h.worker_cases hi hlt hs).2 <;> exact ⟨rfl, rfl, rfl⟩

theorem Consistent.main_frame (h : Consistent numThreads s) (hs : s.mainStep numThreads = some t) :
    t.lists = s.lists ∧ t.given = s.given := by
  cases h.main_cases hs <;> exact ⟨rfl, rfl⟩

end MimoProcessor

/-! ## Two lists -/

namespace TwoLists

variable [DecidableEq L] {l1 l2 : L} {s t : TwoLists L I}

/-- The nodes of `l1` are in front of those of `l2`. -/
def joinedNodes (lists : StdLists L I) (l1 l2 : L) : L → List I :=
  StdLists.movedNodes lists.nodes l2 l1 [] (lists.nodes l2) [] (lists.nodes l1) []

/-- What is true of the lists `now` and of the threads at the points of `_process_list(l1, l2)`, if
it is called with `lists`. -/
def Restorable (lists : StdLists L I) (l1 l2 : L) (now : StdLists L I)
    (processor : MimoProcessor L I) : TwoListsPc L I → Prop
  | .start => now = lists ∧ processor.main = .outside
  | .joined temp =>
    now.nodes = joinedNodes lists l1 l2 ∧ temp = lists.begin l2 ∧ processor.main = .outside
  | .processing temp =>
    now.nodes = joinedNodes lists l1 l2 ∧ temp = lists.begin l2 ∧
      processor.given = lists.nodes l1 ++ lists.nodes l2
  | .done =>
    now.nodes = lists.nodes ∧ processor.main = .outside ∧
      processor.given = lists.nodes l1 ++ lists.nodes l2

structure Ok (numThreads : ℕ) (lists : StdLists L I) (l1 l2 : L) (s : TwoLists L I) : Prop where
  consistent : s.processor.Consistent numThreads
  same : s.processor.lists = s.lists.nodes
  restorable : Restorable lists l1 l2 s.lists s.processor s.pc

def stepsLeft (numThreads : ℕ) (lists : StdLists L I) (l1 l2 : L) (s : TwoLists L I) : ℕ :=
  let processing := (MainPc.test : MainPc L I).stepsLeft numThreads
    (lists.nodes l1 ++ lists.nodes l2).length
  match s.pc with
  | .start => processing + 3
  | .joined _ => processing + 2
  | .processing _ => s.processor.stepsLeft numThreads + 1
  | .done => 0

variable {lists : StdLists L I}

/-- The main thread writes the lists when no call is going on. -/
theorem Ok.writeStep (h : Ok numThreads lists l1 l2 s) (pc : TwoListsPc L I)
    (hout : s.processor.main = .outside) {lists' : StdLists L I}
    (hrestorable : Restorable lists l1 l2 lists' { s.processor with lists := lists'.nodes } pc) :
    ∃ t, s.write numThreads lists' pc = some t ∧ t.pc = pc ∧ Ok numThreads lists l1 l2 t := by
  have hstep : s.processor.step numThreads (.write lists'.nodes) =
      some { s.processor with lists := lists'.nodes } := by simp [MimoProcessor.step, hout]
  refine ⟨{ lists := lists', processor := { s.processor with lists := lists'.nodes }, pc }, ?_, rfl,
    h.consistent.step hstep, rfl, hrestorable⟩
  rw [write, hstep]
  rfl

variable [DecidableEq I]

theorem Ok.workerStep (h : Ok numThreads lists l1 l2 s) {i : ℕ}
    (hs : s.step numThreads l1 l2 (.worker i) = some t) :
    Ok numThreads lists l1 l2 t ∧
      t.stepsLeft numThreads lists l1 l2 < s.stepsLeft numThreads lists l1 l2 := by
  simp only [TwoLists.step, Option.map_eq_some_iff] at hs
  obtain ⟨p, hp, rfl⟩ := hs
  have hconsistent := h.consistent.step hp
  simp only [MimoProcessor.step] at hp
  split at hp
  · rename_i hi
    obtain ⟨hmain, hlists, hgiven⟩ := h.consistent.worker_frame hi.1 hi.2 hp
    have hinside := MainPc.ne_outside_of_awake (h.consistent.worker_cases hi.1 hi.2 hp).1
    have hless := h.consistent.stepsLeft_worker hi.1 hi.2 hp
    have hok := h.restorable
    cases hpc : s.pc with
    | processing temp =>
      rw [hpc] at hok
      refine ⟨⟨hconsistent, hlists.trans h.same, hok.1, hok.2.1, hgiven.trans hok.2.2⟩, ?_⟩
      · simp only [stepsLeft, hpc]
        exact Nat.succ_lt_succ hless
    | start =>
      rw [hpc] at hok
      exact absurd hok.2 hinside
    | joined temp =>
      rw [hpc] at hok
      exact absurd hok.2.2 hinside
    | done =>
      rw [hpc] at hok
      exact absurd hok.2.1 hinside
  · cases hp

/-- **The main thread** is enabled unless it waits for a worker or is done. -/
theorem Ok.mainStep (hne : l1 ≠ l2) (h : Ok numThreads lists l1 l2 s) :
    (s.mainStep numThreads l1 l2 = none ∧
      (s.pc = .done ∨ s.processor.main ≠ .outside ∧ s.processor.mainStep numThreads = none)) ∨
    ∃ t, s.mainStep numThreads l1 l2 = some t ∧ Ok numThreads lists l1 l2 t ∧
      t.stepsLeft numThreads lists l1 l2 < s.stepsLeft numThreads lists l1 l2 := by
  have hok := h.restorable
  cases hpc : s.pc with
  | start =>
    rw [hpc] at hok
    obtain ⟨rfl, hout⟩ := hok
    obtain ⟨joined, hsplice, hnodes⟩ :=
      StdLists.splice_spec hne.symm (StdLists.splitNodes_begin s.lists l2)
    obtain ⟨t, ht, htpc, htok⟩ := h.writeStep (.joined (s.lists.begin l2)) hout
      ⟨hnodes, rfl, hout⟩
    refine .inr ⟨t, ?_, htok, ?_⟩
    · simp only [TwoLists.mainStep, hpc, hsplice]
      exact ht
    · simp only [stepsLeft, hpc, htpc]
      omega
  | joined temp =>
    rw [hpc] at hok
    obtain ⟨hnodes, htemp, hout⟩ := hok
    have hstep : s.processor.step numThreads (.call l2) = some (s.processor.call l2) := by
      simp [MimoProcessor.step, hout]
    have hgiven : s.processor.lists l2 = lists.nodes l1 ++ lists.nodes l2 := by
      rw [h.same, hnodes, joinedNodes, StdLists.movedNodes_to lists.nodes hne.symm]
      rfl
    refine .inr ⟨{ s with processor := s.processor.call l2, pc := .processing temp }, ?_,
      ⟨h.consistent.step hstep, h.same, hnodes, htemp, hgiven⟩, ?_⟩
    · simp only [TwoLists.mainStep, hpc, hstep]
      rfl
    · simp only [stepsLeft, hpc, h.consistent.stepsLeft_call hout, hgiven]
      omega
  | processing temp =>
    rw [hpc] at hok
    obtain ⟨hnodes, htemp, hgiven⟩ := hok
    by_cases hout : s.processor.main = .outside
    · obtain ⟨restored, hsplice, hrestored⟩ := StdLists.spliceRange_restores hne hnodes
      obtain ⟨t, ht, htpc, htok⟩ := h.writeStep .done hout ⟨hrestored, hout, hgiven⟩
      refine .inr ⟨t, ?_, htok, ?_⟩
      · simp only [TwoLists.mainStep, hpc, hout, htemp, hsplice]
        exact ht
      · simp only [stepsLeft, hpc, htpc]
        omega
    · cases hp : s.processor.mainStep numThreads with
      | none =>
        have hstep : s.processor.step numThreads .main = none := hp
        refine .inl ⟨?_, .inr ⟨hout, rfl⟩⟩
        simp only [TwoLists.mainStep, hpc, hstep]
        rfl
      | some p =>
        have hstep : s.processor.step numThreads .main = some p := hp
        obtain ⟨hlists, hgiven'⟩ := h.consistent.main_frame hp
        refine .inr ⟨{ s with processor := p }, ?_,
          ⟨h.consistent.step hstep, hlists.trans h.same, ?_⟩, ?_⟩
        · simp only [TwoLists.mainStep, hpc, hstep]
          rfl
        · rw [hpc]
          exact ⟨hnodes, htemp, hgiven'.trans hgiven⟩
        · simp only [stepsLeft, hpc]
          exact Nat.succ_lt_succ (h.consistent.stepsLeft_main hp)
  | done => exact .inl ⟨by simp only [TwoLists.mainStep, hpc], .inl rfl⟩

/-- Every step keeps the invariant and takes one from the steps that are left. -/
theorem Ok.step (hne : l1 ≠ l2) (h : Ok numThreads lists l1 l2 s) {thread : Thread}
    (hs : s.step numThreads l1 l2 thread = some t) :
    Ok numThreads lists l1 l2 t ∧
      t.stepsLeft numThreads lists l1 l2 < s.stepsLeft numThreads lists l1 l2 := by
  cases thread with
  | main =>
    change s.mainStep numThreads l1 l2 = some t at hs
    rcases h.mainStep hne with ⟨hnone, -⟩ | ⟨t', ht', hok⟩
    · rw [hnone] at hs
      cases hs
    · obtain rfl : t' = t := Option.some.inj (ht'.symm.trans hs)
      exact hok
  | worker i => exact h.workerStep hs

theorem Ok.progress (hne : l1 ≠ l2) (h : Ok numThreads lists l1 l2 s) (hpc : s.pc ≠ .done) :
    ∃ thread t, s.step numThreads l1 l2 thread = some t := by
  rcases h.mainStep hne with ⟨-, hdone | ⟨hinside, hnone⟩⟩ | ⟨t, ht, -⟩
  · exact absurd hdone hpc
  · rcases h.consistent.progress hinside with ⟨t, ht⟩ | ⟨i, hi, hlt, t, ht⟩
    · rw [hnone] at ht
      cases ht
    · refine ⟨.worker i, { s with processor := t }, ?_⟩
      simp only [TwoLists.step, MimoProcessor.step]
      rw [if_pos ⟨hi, hlt⟩, ht]
      rfl
  · exact ⟨.main, t, ht⟩

theorem Ok.run (hne : l1 ≠ l2) (h : Ok numThreads lists l1 l2 s) {threads : List Thread}
    (hrun : Lib.run (TwoLists.step numThreads l1 l2) s threads = some t) :
    Ok numThreads lists l1 l2 t ∧
      threads.length + t.stepsLeft numThreads lists l1 l2 ≤
        s.stepsLeft numThreads lists l1 l2 := by
  induction threads generalizing s with
  | nil =>
    cases hrun
    exact ⟨h, by simp⟩
  | cons thread threads ih =>
    rw [run_cons, Option.bind_eq_some_iff] at hrun
    obtain ⟨u, hu, hrun⟩ := hrun
    obtain ⟨hok, hless⟩ := h.step hne hu
    obtain ⟨hok', hle⟩ := ih hok hrun
    refine ⟨hok', ?_⟩
    rw [List.length_cons]
    omega

end TwoLists

end Apf
