import Ssr.Apf.MimoProcessor
import Mathlib.Data.List.Flatten
import Mathlib.Data.List.Perm.Basic

/-!
# Lists are processed completely

`selected` is the share of a thread. In each `Phase` of a call a worker has its place (`WorkerOk`):
it is idle before it is woken and after the main thread has waited for it; in between, exactly one
of its two semaphores is raised or it is at work. `Consistent.step` keeps this for all threads, and
`process_list_complete` is what it means when `_process_list()` has returned.
-/

set_option autoImplicit false

namespace Apf

open Lib

variable {L I : Type}

/-! ## The shares of the threads -/

/-- The items that the thread `i` processes. -/
def selected (numThreads i : ℕ) (items : List I) : List I :=
  (items.zipIdx.filter fun item => i = item.2 % numThreads).map Prod.fst

theorem selected_snoc (numThreads i : ℕ) (items : List I) (item : I) :
    selected numThreads i (items ++ [item]) =
      selected numThreads i items ++ if i = items.length % numThreads then [item] else [] := by
  unfold selected
  rw [List.zipIdx_append, List.filter_append, List.map_append]
  congr 1
  by_cases h : i = items.length % numThreads <;> simp [h]

theorem selected_take_succ (numThreads i : ℕ) {items : List I} {n : ℕ} {item : I}
    (h : items[n]? = some item) :
    selected numThreads i (items.take (n + 1)) =
      selected numThreads i (items.take n) ++ if i = n % numThreads then [item] else [] := by
  obtain ⟨hn, -⟩ := List.getElem?_eq_some_iff.1 h
  have hlength : (items.take n).length = n := List.length_take_of_le (Nat.le_of_lt hn)
  rw [List.take_add_one, h, Option.toList_some, selected_snoc, hlength]

/-- Where a worker is in a call: not yet woken, awake, waited for. -/
inductive Phase
  | before
  | awake
  | after

def MainPc.phase (i : ℕ) : MainPc L I → Phase
  | .outside => .after
  | .test => .before
  | .wake j => if i < j then .awake else .before
  | .walking _ => .awake
  | .join j => if i < j then .after else .awake

theorem MainPc.ne_outside_of_awake {pc : MainPc L I} {i : ℕ} (h : pc.phase i = .awake) :
    pc ≠ .outside := by
  rintro rfl
  cases h

/-- What a thread has processed in the middle of a walk over the items of `list`. -/
def WalkOk (numThreads i : ℕ) (list : L) (items done : List I) : Walk L I → Prop
  | .begin => done = []
  | .next l n => l = list ∧ n ≤ items.length ∧ done = selected numThreads i (items.take n)
  | .busy l n item =>
    l = list ∧ items[n]? = some item ∧ i = n % numThreads ∧
      done = selected numThreads i (items.take n)

/-- A worker outside of the function that processes the items. -/
def Worker.Idle (w : Worker L I) (cont wait : ℕ) (done : List I) : Prop :=
  w.pc = .waiting ∧ w.contSemaphore = cont ∧ w.waitSemaphore = wait ∧ w.processed = done

/-- A worker that has been woken and not yet waited for. -/
inductive Worker.Awake (numThreads i : ℕ) (list : Option L) (items : List I) (w : Worker L I) : Prop
  | woken (h : w.Idle 1 0 [])
  | walking (walk : Walk L I) (l : L) (hpc : w.pc = .walking walk) (hcont : w.contSemaphore = 0)
    (hwait : w.waitSemaphore = 0) (hlist : list = some l)
    (h : WalkOk numThreads i l items w.processed walk)
  | posting (hpc : w.pc = .posting) (hcont : w.contSemaphore = 0) (hwait : w.waitSemaphore = 0)
    (h : w.processed = selected numThreads i items)
  | ready (h : w.Idle 0 1 (selected numThreads i items))

def WorkerOk (numThreads i : ℕ) (list : Option L) (items : List I) (w : Worker L I) : Phase → Prop
  | .before => w.Idle 0 0 []
  | .awake => w.Awake numThreads i list items
  | .after => w.Idle 0 0 (selected numThreads i items)

def MainOk (numThreads : ℕ) (list : Option L) (items done : List I) : MainPc L I → Prop
  | .outside => done = selected numThreads 0 items
  | .test => done = []
  | .wake j => 0 < j ∧ done = []
  | .walking walk => ∃ l, list = some l ∧ WalkOk numThreads 0 l items done walk
  | .join j => 0 < j ∧ done = selected numThreads 0 items

namespace MimoProcessor

structure Consistent (numThreads : ℕ) (s : MimoProcessor L I) : Prop where
  list : s.main ≠ .outside → ∃ l, s.currentList = some l ∧ s.lists l = s.given
  main : MainOk numThreads s.currentList s.given s.processed s.main
  workers : ∀ i, 0 < i → i < numThreads →
    WorkerOk numThreads i s.currentList s.given (s.workers i) (s.main.phase i)

variable {numThreads : ℕ} {s t : MimoProcessor L I}

/-! ## Walks -/

/-- What a thread knows after a step of its walk. -/
def WalkedOk (numThreads i : ℕ) (list : L) (items done : List I) : Option (Walk L I) → Prop
  | none => done = selected numThreads i items
  | some walk => WalkOk numThreads i list items done walk

theorem walkOk_step {i : ℕ} {l : L} {done : List I} {walk : Walk L I} (hlist : s.currentList = some l)
    (hgiven : s.lists l = s.given) (h : WalkOk numThreads i l s.given done walk)
    {r : Option (Walk L I) × List I} (hs : s.walkStep numThreads i walk = some r) :
    WalkedOk numThreads i l s.given (done ++ r.2) r.1 := by
  cases walk with
  | begin =>
    rw [walkStep, hlist] at hs
    cases hs
    obtain rfl : done = [] := h
    exact ⟨rfl, Nat.zero_le _, rfl⟩
  | next l' n =>
    obtain ⟨rfl, hn, rfl⟩ := h
    simp only [walkStep, hgiven] at hs
    split at hs
    · rename_i hend
      cases hs
      rw [List.getElem?_eq_none_iff] at hend
      rw [List.append_nil, List.take_of_length_le hend]
      exact rfl
    · rename_i item hitem
      obtain ⟨hlt, -⟩ := List.getElem?_eq_some_iff.1 hitem
      split at hs
      · rename_i hmine
        cases hs
        rw [List.append_nil]
        exact ⟨rfl, hitem, hmine, rfl⟩
      · rename_i hother
        cases hs
        refine ⟨rfl, hlt, ?_⟩
        rw [selected_take_succ numThreads i hitem, if_neg hother]
  | busy l' n item =>
    obtain ⟨rfl, hitem, hmine, rfl⟩ := h
    obtain ⟨hlt, -⟩ := List.getElem?_eq_some_iff.1 hitem
    cases hs
    refine ⟨rfl, hlt, ?_⟩
    rw [selected_take_succ numThreads i hitem, if_pos hmine]

/-! ## Steps of the workers -/

/-- One worker changes, together with its phase. -/
theorem workersOk_update {list : Option L} {items : List I} {workers : ℕ → Worker L I}
    {phase phase' : ℕ → Phase} (h : ∀ i, 0 < i → i < numThreads →
      WorkerOk numThreads i list items (workers i) (phase i)) {j : ℕ} {w : Worker L I}
    (hsame : ∀ i, i ≠ j → phase' i = phase i) (hw : WorkerOk numThreads j list items w (phase' j)) :
    ∀ i, 0 < i → i < numThreads →
      WorkerOk numThreads i list items (Function.update workers j w i) (phase' i) := by
  intro i hi hlt
  by_cases hij : i = j
  · subst hij
    rw [Function.update_self]
    exact hw
  · rw [Function.update_of_ne hij, hsame i hij]
    exact h i hi hlt

theorem Consistent.setWorker (h : Consistent numThreads s) {i : ℕ} {w : Worker L I}
    (hw : WorkerOk numThreads i s.currentList s.given w (s.main.phase i)) :
    Consistent numThreads (s.setWorker i w) :=
  { h with workers := workersOk_update h.workers (fun _ _ => rfl) hw }

/-- A worker that is not awake is stuck in `cont_semaphore.wait()`. -/
theorem stuck_of_idle {i wait : ℕ} {done : List I} (h : (s.workers i).Idle 0 wait done) :
    s.workerStep numThreads i = none := by
  obtain ⟨hpc, hcont, -, -⟩ := h
  simp [workerStep, hpc, hcont]

/-- What a step of the worker `i` does, which is awake. -/
inductive WorkerStep (numThreads : ℕ) (s : MimoProcessor L I) (i : ℕ) : MimoProcessor L I → Prop
  | start (h : (s.workers i).Idle 1 0 []) :
    WorkerStep numThreads s i (s.setWorker i { s.workers i with
      contSemaphore := (s.workers i).contSemaphore - 1, pc := .walking .begin })
  | walk (walk : Walk L I) (l : L) (r : Option (Walk L I) × List I)
    (hpc : (s.workers i).pc = .walking walk) (hcont : (s.workers i).contSemaphore = 0)
    (hwait : (s.workers i).waitSemaphore = 0) (hlist : s.currentList = some l)
    (hgiven : s.lists l = s.given) (h : WalkOk numThreads i l s.given (s.workers i).processed walk)
    (hwalk : s.walkStep numThreads i walk = some r) :
    WorkerStep numThreads s i (s.setWorker i { s.workers i with
      pc := r.1.elim .posting .walking, processed := (s.workers i).processed ++ r.2 })
  | post (hpc : (s.workers i).pc = .posting) (hcont : (s.workers i).contSemaphore = 0)
    (hwait : (s.workers i).waitSemaphore = 0)
    (h : (s.workers i).processed = selected numThreads i s.given) :
    WorkerStep numThreads s i (s.setWorker i { s.workers i with
      waitSemaphore := (s.workers i).waitSemaphore + 1, pc := .waiting })

/-- Only a worker that is awake takes a step. -/
theorem Consistent.worker_cases (h : Consistent numThreads s) {i : ℕ} (hi : 0 < i)
    (hlt : i < numThreads) (hs : s.workerStep numThreads i = some t) :
    s.main.phase i = .awake ∧ WorkerStep numThreads s i t := by
  have hw := h.workers i hi hlt
  cases hphase : s.main.phase i with
  | before =>
    rw [hphase] at hw
    rw [stuck_of_idle hw] at hs
    cases hs
  | after =>
    rw [hphase] at hw
    rw [stuck_of_idle hw] at hs
    cases hs
  | awake =>
    rw [hphase] at hw
    refine ⟨rfl, ?_⟩
    obtain ⟨l, hlist, hgiven⟩ := h.list (MainPc.ne_outside_of_awake hphase)
    unfold MimoProcessor.workerStep at hs
    cases hw with
    | woken hidle =>
      simp only [hidle.1, hidle.2.1] at hs
      cases hs
      have hstart : WorkerStep numThreads s i _ := .start hidle
      rwa [hidle.2.1] at hstart
    | walking walk l' hpc hcont hwait hlist' hwalk =>
      obtain rfl : l' = l := Option.some.inj (hlist'.symm.trans hlist)
      simp only [hpc] at hs
      split at hs
      · cases hs
      · rename_i hstep
        cases hs
        exact .walk walk l' _ hpc hcont hwait hlist hgiven hwalk hstep
      · rename_i hstep
        cases hs
        exact .walk walk l' _ hpc hcont hwait hlist hgiven hwalk hstep
    | posting hpc hcont hwait hdone =>
      simp only [hpc] at hs
      cases hs
      exact .post hpc hcont hwait hdone
    | ready hidle =>
      simp only [hidle.1, hidle.2.1] at hs
      cases hs

theorem Consistent.workerStep (h : Consistent numThreads s) {i : ℕ} (hi : 0 < i)
    (hlt : i < numThreads) (hs : s.workerStep numThreads i = some t) : Consistent numThreads t := by
  obtain ⟨hphase, hstep⟩ := h.worker_cases hi hlt hs
  have hset : ∀ w : Worker L I, w.Awake numThreads i s.currentList s.given →
      Consistent numThreads (s.setWorker i w) := by
    intro w hw
    refine h.setWorker ?_
    rw [hphase]
    exact hw
  cases hstep with
  | start hidle =>
    obtain ⟨-, hcont, hwait, hdone⟩ := hidle
    obtain ⟨l, hlist, -⟩ := h.list (MainPc.ne_outside_of_awake hphase)
    exact hset _ (.walking .begin l rfl (congrArg (· - 1) hcont) hwait hlist hdone)
  | walk walk l r _ hcont hwait hlist hgiven hwalk hstep =>
    have hwalked := walkOk_step hlist hgiven hwalk hstep
    obtain ⟨next, items⟩ := r
    cases next with
    | none => exact hset _ (.posting rfl hcont hwait hwalked)
    | some next => exact hset _ (.walking next l rfl hcont hwait hlist hwalked)
  | post _ hcont hwait hdone => exact hset _ (.ready ⟨rfl, hcont, congrArg (· + 1) hwait, hdone⟩)

/-! ## Steps of the main thread -/

/-- What a step of the main thread does. -/
inductive MainStep (numThreads : ℕ) (s : MimoProcessor L I) : MimoProcessor L I → Prop
  | empty (hpc : s.main = .test) (hdone : s.processed = []) (hnil : s.given = []) :
    MainStep numThreads s { s with main := .outside }
  | fill (l : L) (hpc : s.main = .test) (hdone : s.processed = []) (hlist : s.currentList = some l)
    (hgiven : s.lists l = s.given) : MainStep numThreads s { s with main := .wake 1 }
  | wake (j : ℕ) (hpc : s.main = .wake j) (hj : 0 < j) (hlt : j < numThreads)
    (hdone : s.processed = []) (hw : (s.workers j).Idle 0 0 []) :
    MainStep numThreads s { s.setWorker j { s.workers j with
      contSemaphore := (s.workers j).contSemaphore + 1 } with main := .wake (j + 1) }
  | woken (j : ℕ) (hpc : s.main = .wake j) (hge : numThreads ≤ j) (hdone : s.processed = []) :
    MainStep numThreads s { s with main := .walking .begin }
  | walk (walk : Walk L I) (l : L) (r : Option (Walk L I) × List I) (hpc : s.main = .walking walk)
    (hlist : s.currentList = some l) (hgiven : s.lists l = s.given)
    (h : WalkOk numThreads 0 l s.given s.processed walk)
    (hwalk : s.walkStep numThreads 0 walk = some r) :
    MainStep numThreads s { s with
      main := r.1.elim (.join 1) .walking, processed := s.processed ++ r.2 }
  | join (j : ℕ) (hpc : s.main = .join j) (hj : 0 < j) (hlt : j < numThreads)
    (hdone : s.processed = selected numThreads 0 s.given)
    (hw : (s.workers j).Idle 0 1 (selected numThreads j s.given)) :
    MainStep numThreads s { s.setWorker j { s.workers j with
      waitSemaphore := (s.workers j).waitSemaphore - 1 } with main := .join (j + 1) }
  | joined (j : ℕ) (hpc : s.main = .join j) (hge : numThreads ≤ j)
    (hdone : s.processed = selected numThreads 0 s.given) :
    MainStep numThreads s { s with main := .outside }

theorem Consistent.main_cases (h : Consistent numThreads s) (hs : s.mainStep numThreads = some t) :
    MainStep numThreads s t := by
  have hmain := h.main
  have hworkers := h.workers
  have hlist := h.list
  unfold MimoProcessor.mainStep at hs
  split at hs
  · cases hs
  · -- an empty list is processed as it is
    rename_i hpc
    rw [hpc] at hmain
    obtain ⟨l, hl, hgiven⟩ := hlist (by simp [hpc])
    simp only [hl, hgiven, Option.some.injEq] at hs
    rw [← hl] at hs
    subst hs
    by_cases hempty : s.given.isEmpty = true
    · rw [if_pos hempty]
      exact .empty hpc hmain (List.isEmpty_iff.1 hempty)
    · rw [if_neg hempty]
      exact .fill l hpc hmain hl hgiven
  · rename_i j hpc
    rw [hpc] at hmain
    obtain ⟨hj, hdone⟩ := hmain
    split at hs
    · rename_i hlt
      have hw := hworkers j hj hlt
      rw [hpc, MainPc.phase, if_neg (Nat.lt_irrefl j)] at hw
      cases hs
      exact .wake j hpc hj hlt hdone hw
    · rename_i hge
      cases hs
      exact .woken j hpc (Nat.not_lt.1 hge) hdone
  · rename_i walk hpc
    rw [hpc] at hmain
    obtain ⟨l, hl, hwalk⟩ := hmain
    obtain ⟨l', hl', hgiven⟩ := hlist (by simp [hpc])
    obtain rfl : l' = l := Option.some.inj (hl'.symm.trans hl)
    split at hs
    · cases hs
    · rename_i hstep
      cases hs
      exact .walk walk l' _ hpc hl hgiven hwalk hstep
    · rename_i hstep
      cases hs
      exact .walk walk l' _ hpc hl hgiven hwalk hstep
  · rename_i j hpc
    rw [hpc] at hmain
    obtain ⟨hj, hdone⟩ := hmain
    split at hs
    · rename_i hlt
      have hw := hworkers j hj hlt
      rw [hpc, MainPc.phase, if_neg (Nat.lt_irrefl j)] at hw
      dsimp only at hs
      split at hs
      · cases hs
      · rename_i hraised
        cases hs
        -- only a worker that is done has raised its semaphore
        cases hw with
        | woken hidle => exact absurd hidle.2.2.1 hraised
        | walking _ _ _ _ hwait => exact absurd hwait hraised
        | posting _ _ hwait => exact absurd hwait hraised
        | ready hidle => exact .join j hpc hj hlt hdone hidle
    · rename_i hge
      cases hs
      exact .joined j hpc (Nat.not_lt.1 hge) hdone

theorem phase_wake_succ {i j : ℕ} (hne : i ≠ j) :
    (MainPc.wake (j + 1) : MainPc L I).phase i = (MainPc.wake j : MainPc L I).phase i := by
  rw [MainPc.phase, MainPc.phase]
  congr 1
  exact propext ⟨fun h => by omega, fun h => by omega⟩

theorem phase_join_succ {i j : ℕ} (hne : i ≠ j) :
    (MainPc.join (j + 1) : MainPc L I).phase i = (MainPc.join j : MainPc L I).phase i := by
  rw [MainPc.phase, MainPc.phase]
  congr 1
  exact propext ⟨fun h => by omega, fun h => by omega⟩

theorem Consistent.mainStep (h : Consistent numThreads s) (hs : s.mainStep numThreads = some t) :
    Consistent numThreads t := by
  have hlist := h.list
  have hworkers := h.workers
  cases h.main_cases hs with
  | empty hpc hdone hnil =>
    rw [hpc] at hworkers
    refine ⟨fun hne => absurd rfl hne, ?_, fun i hi hlt => ?_⟩
    · rw [MainOk, hdone, hnil]
      rfl
    · have hw := hworkers i hi hlt
      rw [hnil]
      exact hw
  | fill l hpc hdone hl hgiven =>
    rw [hpc] at hworkers
    refine ⟨fun _ => ⟨l, hl, hgiven⟩, ⟨Nat.one_pos, hdone⟩, fun i hi hlt => ?_⟩
    have hphase : (MainPc.wake 1 : MainPc L I).phase i = .before := if_neg (by omega)
    rw [hphase]
    exact hworkers i hi hlt
  | wake j hpc hj hlt hdone hw =>
    rw [hpc] at hworkers
    obtain ⟨hwpc, hcont, hwait, hnone⟩ := hw
    refine ⟨fun _ => hlist (by simp [hpc]), ⟨Nat.succ_pos j, hdone⟩,
      workersOk_update hworkers (fun i hne => phase_wake_succ hne) ?_⟩
    rw [MainPc.phase, if_pos (Nat.lt_succ_self j)]
    exact .woken ⟨hwpc, congrArg (· + 1) hcont, hwait, hnone⟩
  | woken j hpc hge hdone =>
    rw [hpc] at hworkers
    obtain ⟨l, hl, hgiven⟩ := hlist (by simp [hpc])
    refine ⟨fun _ => ⟨l, hl, hgiven⟩, ⟨l, hl, hdone⟩, fun i hi hlt => ?_⟩
    have hw := hworkers i hi hlt
    rw [MainPc.phase, if_pos (by omega)] at hw
    exact hw
  | walk walk l r hpc hl hgiven hwalk hstep =>
    rw [hpc] at hworkers
    have hwalked := walkOk_step hl hgiven hwalk hstep
    obtain ⟨next, items⟩ := r
    cases next with
    | none =>
      refine ⟨fun _ => ⟨l, hl, hgiven⟩, ⟨Nat.one_pos, hwalked⟩, fun i hi hlt => ?_⟩
      have hphase : (MainPc.join 1 : MainPc L I).phase i = .awake := if_neg (by omega)
      change WorkerOk _ _ _ _ _ ((MainPc.join 1 : MainPc L I).phase i)
      rw [hphase]
      exact hworkers i hi hlt
    | some next => exact ⟨fun _ => ⟨l, hl, hgiven⟩, ⟨l, hl, hwalked⟩, hworkers⟩
  | join j hpc hj hlt hdone hw =>
    rw [hpc] at hworkers
    obtain ⟨hwpc, hcont, hwait, hall⟩ := hw
    refine ⟨fun _ => hlist (by simp [hpc]), ⟨Nat.succ_pos j, hdone⟩,
      workersOk_update hworkers (fun i hne => phase_join_succ hne) ?_⟩
    rw [MainPc.phase, if_pos (Nat.lt_succ_self j)]
    exact ⟨hwpc, hcont, congrArg (· - 1) hwait, hall⟩
  | joined j hpc hge hdone =>
    rw [hpc] at hworkers
    refine ⟨fun hne => absurd rfl hne, hdone, fun i hi hlt => ?_⟩
    have hw := hworkers i hi hlt
    rw [MainPc.phase, if_pos (by omega)] at hw
    exact hw

/-! ## Runs -/

theorem consistent_init (lists : L → List I) : Consistent numThreads (init lists) :=
  ⟨fun hne => absurd rfl hne, rfl, fun _ _ _ => ⟨rfl, rfl, rfl, rfl⟩⟩

/-- **Every step** of the main thread and of the workers keeps the invariant. -/
theorem Consistent.step (h : Consistent numThreads s) {a : Action L I}
    (hs : s.step numThreads a = some t) : Consistent numThreads t := by
  have hmain := h.main
  have hworkers := h.workers
  cases a with
  | write lists =>
    simp only [MimoProcessor.step] at hs
    split at hs
    · rename_i hpc
      cases hs
      exact { h with list := fun hne => absurd hpc hne }
    · cases hs
  | call l =>
    simp only [MimoProcessor.step] at hs
    split at hs
    · rename_i hpc
      rw [hpc] at hworkers
      cases hs
      refine ⟨fun _ => ⟨l, rfl, rfl⟩, rfl, fun i hi hlt => ?_⟩
      obtain ⟨hwpc, hcont, hwait, -⟩ := hworkers i hi hlt
      exact ⟨hwpc, hcont, hwait, rfl⟩
    · cases hs
  | main => exact h.mainStep hs
  | worker i =>
    simp only [MimoProcessor.step] at hs
    split at hs
    · rename_i hi
      exact h.workerStep hi.1 hi.2 hs
    · cases hs

end MimoProcessor

end Apf
