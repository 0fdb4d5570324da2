import Ssr.Apf.LockFreeFifo
import Ssr.Lib.Run

/-!
# The two threads of a FIFO (`apf/lockfreefifo.h`)

One thread calls `push` (never with a null pointer), the other one `pop`. A step of a thread is at
most one access to `_read_index`, `_write_index` or a slot, together with the computation on local
variables that follows it. `accepted`, `popped`, `refused` and `nulls` record what the calls have
returned.
-/

set_option autoImplicit false

namespace Apf

/-- A point of `push(item)`: what it does next. `r` and `w` are its local variables. -/
inductive Producer (T : Type)
  | idle
  /-- `r = _read_index` -/
  | readRead (item : T)
  /-- `w = _write_index` and the tests -/
  | readWrite (item : T) (r : ℕ)
  /-- `_data[w & _size_mask] = item` -/
  | store (item : T) (w : ℕ)
  /-- `_write_index = ++w & _size_mask` -/
  | publish (item : T) (w : ℕ)

/-- A point of `pop()`. The operands of `_read_index == _write_index` in `empty()` are read in any
order. -/
inductive Consumer (T : Type)
  | idle
  | emptyFirst (writeFirst : Bool)
  | emptySecond (writeFirst : Bool) (operand : ℕ)
  /-- `r = _read_index` -/
  | readIndex
  /-- `retval = _data[r]` -/
  | readSlot (r : ℕ)
  /-- `_read_index = ++r & _size_mask` -/
  | advance (r : ℕ) (retval : Option T)

structure FifoThreads (T : Type) where
  fifo : LockFreeFifo T
  producer : Producer T
  consumer : Consumer T
  /-- the items for which `push` has returned `true` -/
  accepted : List T
  /-- the results of `pop` that are not null -/
  popped : List T
  /-- the accepted items that had not been popped when `push` has last read `_read_index` -/
  pushSaw : ℕ
  /-- the accepted items that had not been popped when `empty` has last read `_write_index` -/
  popSaw : ℕ
  /-- `pushSaw` of each call that has returned `false` -/
  refused : List ℕ
  /-- `popSaw` of each call that has returned null -/
  nulls : List ℕ

namespace FifoThreads

variable {T : Type}

def init (fifo : LockFreeFifo T) : FifoThreads T :=
  { fifo, producer := .idle, consumer := .idle, accepted := [], popped := [], pushSaw := 0, popSaw := 0,
    refused := [], nulls := [] }

/-- The number of accepted items that have not been popped. -/
def waiting (s : FifoThreads T) : ℕ := s.accepted.length - s.popped.length

/-- One step of a thread that is inside `push`. -/
def producerStep (s : FifoThreads T) : Option (FifoThreads T) :=
  let q := s.fifo
  match s.producer with
  | .idle => none
  | .readRead item =>
    some { s with producer := .readWrite item q.readIndex, pushSaw := s.waiting }
  | .readWrite item r =>
    let w := q.unwrap r q.writeIndex
    if sub64 w r > sub64 q.size 2 then
      some { s with producer := .idle, refused := s.refused ++ [s.pushSaw] }
    else some { s with producer := .store item w }
  | .store item w =>
    some { s with
      fifo := { q with data := q.data.set (w &&& q.sizeMask) (some item) }
      producer := .publish item w }
  | .publish item w =>
    some { s with
      fifo := { q with writeIndex := add64 w 1 &&& q.sizeMask }
      producer := .idle
      accepted := s.accepted ++ [item] }

/-- One step of a thread that is inside `pop`. -/
def consumerStep (s : FifoThreads T) : Option (FifoThreads T) :=
  let q := s.fifo
  match s.consumer with
  | .idle => none
  | .emptyFirst true =>
    some { s with consumer := .emptySecond true q.writeIndex, popSaw := s.waiting }
  | .emptyFirst false => some { s with consumer := .emptySecond false q.readIndex }
  | .emptySecond true w =>
    if q.readIndex = w then some { s with consumer := .idle, nulls := s.nulls ++ [s.popSaw] }
    else some { s with consumer := .readIndex }
  | .emptySecond false r =>
    if r = q.writeIndex then some { s with consumer := .idle, nulls := s.nulls ++ [s.waiting] }
    else some { s with consumer := .readIndex, popSaw := s.waiting }
  | .readIndex => some { s with consumer := .readSlot q.readIndex }
  | .readSlot r => some { s with consumer := .advance r (q.data[r]?).join }
  | .advance r retval =>
    let s := { s with fifo := { q with readIndex := add64 r 1 &&& q.sizeMask }, consumer := .idle }
    match retval with
    | none => some { s with nulls := s.nulls ++ [s.popSaw] }
    | some item => some { s with popped := s.popped ++ [item] }

inductive Action (T : Type)
  | push (item : T)
  | pop (writeFirst : Bool)
  | producer
  | consumer

def step (s : FifoThreads T) : Action T → Option (FifoThreads T)
  | .push item =>
    match s.producer with
    | .idle => some { s with producer := .readRead item }
    | _ => none
  | .pop writeFirst =>
    match s.consumer with
    | .idle => some { s with consumer := .emptyFirst writeFirst }
    | _ => none
  | .producer => s.producerStep
  | .consumer => s.consumerStep

/-- One thread is about to read the slot that the other one is about to write. -/
def Clash (s : FifoThreads T) : Prop :=
  ∃ item w r, s.producer = .store item w ∧ s.consumer = .readSlot r ∧ w &&& s.fifo.sizeMask = r

end FifoThreads

end Apf
