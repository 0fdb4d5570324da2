import Ssr.Apf.MimoProcessor
import Ssr.Lib.StdList

/-!
# Two lists at once (`apf/mimoprocessor.h`)

`_process_list(l1, l2)` puts the list `l1` in front of `l2`, processes `l2` and takes `l1` back. The
lists are linked lists, whose nodes stand for the items; the worker threads run in the meantime.
-/

set_option autoImplicit false

namespace Apf

open Lib

/-- A point of `_process_list(l1, l2)`; `temp` is the iterator of this name. -/
inductive TwoListsPc (L I : Type)
  | start
  | joined (temp : Iterator L I)
  | processing (temp : Iterator L I)
  | done

structure TwoLists (L I : Type) where
  lists : StdLists L I
  processor : MimoProcessor L I
  pc : TwoListsPc L I

namespace TwoLists

variable {L I : Type} [DecidableEq L] [DecidableEq I]

def init (lists : StdLists L I) (processor : MimoProcessor L I) : TwoLists L I :=
  { lists, processor, pc := .start }

/-- The main thread leaves other lists than before. -/
def write (numThreads : ℕ) (s : TwoLists L I) (lists : StdLists L I) (pc : TwoListsPc L I) :
    Option (TwoLists L I) :=
  (s.processor.step numThreads (.write lists.nodes)).map fun processor => { lists, processor, pc }

def mainStep (numThreads : ℕ) (l1 l2 : L) (s : TwoLists L I) : Option (TwoLists L I) :=
  match s.pc with
  | .start =>
    let temp := s.lists.begin l2
    (s.lists.splice l2 temp l1).bind fun lists => s.write numThreads lists (.joined temp)
  | .joined temp =>
    (s.processor.step numThreads (.call l2)).map fun processor =>
      { s with processor, pc := .processing temp }
  | .processing temp =>
    match s.processor.main with
    | .outside =>
      (s.lists.spliceRange l1 (.endOf l1) l2 (s.lists.begin l2) temp).bind fun lists =>
        s.write numThreads lists .done
    | _ => (s.processor.step numThreads .main).map fun processor => { s with processor }
  | .done => none

inductive Thread
  | main
  | worker (i : ℕ)

def step (numThreads : ℕ) (l1 l2 : L) (s : TwoLists L I) : Thread → Option (TwoLists L I)
  | .main => s.mainStep numThreads l1 l2
  | .worker i =>
    (s.processor.step numThreads (.worker i)).map fun processor => { s with processor }

end TwoLists

end Apf
