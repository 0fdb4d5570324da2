import Ssr.Lib.Run
import Mathlib.Logic.Function.Basic

/-!
# Lists processed in parallel (`apf/mimoprocessor.h`)

`MimoProcessor` is the main audio thread, thread number 0, and the worker threads 1, ...,
`numThreads` - 1 around `_process_list()`. A step is one semaphore operation, one look at the list
or the start or the end of the `process()` of one item. Outside of `_process_list()` the main thread
may change all lists (`Action.write`: commands, and `splice()` before and after a call with two
lists). `processed` records what a thread has done in the current call.
-/

set_option autoImplicit false

namespace Apf

/-- A point of `_process_selected_items_in_current_list()`; `list` is the list that the loop goes
through and `n` the number of the items before the iterator. -/
inductive Walk (L I : Type)
  | begin
  | next (list : L) (n : ℕ)
  | busy (list : L) (n : ℕ) (item : I)

/-- A point of `WorkerThreadFunction::operator()`, which a worker thread calls forever. -/
inductive WorkerPc (L I : Type)
  /-- `cont_semaphore.wait()` -/
  | waiting
  | walking (walk : Walk L I)
  /-- `wait_semaphore.post()` -/
  | posting

structure Worker (L I : Type) where
  contSemaphore : ℕ
  waitSemaphore : ℕ
  pc : WorkerPc L I
  processed : List I

/-- A point of `_process_current_list_in_main_thread()`. -/
inductive MainPc (L I : Type)
  /-- not in `_process_list()` -/
  | outside
  /-- `_current_list->empty()` -/
  | test
  /-- `cont_semaphore.post()` of the worker `i` -/
  | wake (i : ℕ)
  | walking (walk : Walk L I)
  /-- `wait_semaphore.wait()` of the worker `i` -/
  | join (i : ℕ)

structure MimoProcessor (L I : Type) where
  lists : L → List I
  currentList : Option L
  main : MainPc L I
  /-- by the main thread -/
  processed : List I
  workers : ℕ → Worker L I
  /-- the items of the list at the last call of `_process_list()` -/
  given : List I

namespace MimoProcessor

variable {L I : Type}

def init (lists : L → List I) : MimoProcessor L I :=
  { lists, currentList := none, main := .outside, processed := [], given := [],
    workers := fun _ => { contSemaphore := 0, waitSemaphore := 0, pc := .waiting, processed := [] } }

def setWorker (s : MimoProcessor L I) (i : ℕ) (w : Worker L I) : MimoProcessor L I :=
  { s with workers := Function.update s.workers i w }

/-- `_process_list(l)` is called. -/
def call (s : MimoProcessor L I) (l : L) : MimoProcessor L I :=
  { s with
    currentList := some l
    main := .test
    processed := []
    workers := fun i => { s.workers i with processed := [] }
    given := s.lists l }

variable (numThreads : ℕ)

/-- One step of `_process_selected_items_in_current_list(threadNumber)`: where it goes on, if it
does not return, and the item whose `process()` has ended. -/
def walkStep (s : MimoProcessor L I) (threadNumber : ℕ) :
    Walk L I → Option (Option (Walk L I) × List I)
  | .begin => s.currentList.map fun l => (some (.next l 0), [])
  | .next l n =>
    match (s.lists l)[n]? with
    | none => some (none, [])
    | some item =>
      if threadNumber = n % numThreads then some (some (.busy l n item), [])
      else some (some (.next l (n + 1)), [])
  | .busy l n item => some (some (.next l (n + 1)), [item])

def workerStep (s : MimoProcessor L I) (i : ℕ) : Option (MimoProcessor L I) :=
  let w := s.workers i
  match w.pc with
  | .waiting =>
    if w.contSemaphore = 0 then none
    else some (s.setWorker i
      { w with contSemaphore := w.contSemaphore - 1, pc := .walking .begin })
  | .walking walk =>
    match s.walkStep numThreads i walk with
    | none => none
    | some (none, items) =>
      some (s.setWorker i { w with pc := .posting, processed := w.processed ++ items })
    | some (some walk, items) =>
      some (s.setWorker i { w with pc := .walking walk, processed := w.processed ++ items })
  | .posting =>
    some (s.setWorker i { w with waitSemaphore := w.waitSemaphore + 1, pc := .waiting })

def mainStep (s : MimoProcessor L I) : Option (MimoProcessor L I) :=
  match s.main with
  | .outside => none
  | .test =>
    match s.currentList with
    | none => none
    | some l => some { s with main := if (s.lists l).isEmpty then .outside else .wake 1 }
  | .wake i =>
    if i < numThreads then
      let w := s.workers i
      some { s.setWorker i { w with contSemaphore := w.contSemaphore + 1 } with main := .wake (i + 1) }
    else some { s with main := .walking .begin }
  | .walking walk =>
    match s.walkStep numThreads 0 walk with
    | none => none
    | some (none, items) => some { s with main := .join 1, processed := s.processed ++ items }
    | some (some walk, items) =>
      some { s with main := .walking walk, processed := s.processed ++ items }
  | .join i =>
    if i < numThreads then
      let w := s.workers i
      if w.waitSemaphore = 0 then none
      else some { s.setWorker i { w with waitSemaphore := w.waitSemaphore - 1 } with
        main := .join (i + 1) }
    else some { s with main := .outside }

inductive Action (L I : Type)
  /-- the main thread changes the lists -/
  | write (lists : L → List I)
  | call (l : L)
  | main
  | worker (i : ℕ)

def step (s : MimoProcessor L I) : Action L I → Option (MimoProcessor L I)
  | .write lists =>
    match s.main with
    | .outside => some { s with lists }
    | _ => none
  | .call l =>
    match s.main with
    | .outside => some (s.call l)
    | _ => none
  | .main => s.mainStep numThreads
  | .worker i => if 0 < i ∧ i < numThreads then s.workerStep numThreads i else none

end MimoProcessor

end Apf
