import Ssr.Apf.LockFreeFifo
import Ssr.Lib.Run

/-!
# The command queue (`apf/commandqueue.h`) and its two threads

`CommandQueue` holds two FIFOs: commands travel through `inFifo` to the realtime thread and, once
executed, through `outFifo` back to the non-realtime thread for cleanup. `Threads` is the pair of
threads; one step of a thread is at most one FIFO operation. The non-realtime thread is a stack of
`Frame`s, because the `cleanup()` of a `QueryCommand` pushes again. Assertions are compiled out
(`NDEBUG`). `executed`, `cleaned` and `lost` record what has happened to the commands.

The queue is written over any `Fifo`: `LockFreeFifo Command` is the code's, `BoundedFifo` is the
list that it stands for.
-/

set_option autoImplicit false

namespace Apf

/-- What `cleanup()` of a command does: nothing of interest here, `done = true` in `wait()`, or the
recursive `new_query` of a `QueryCommand`. -/
inductive CommandKind
  | plain
  | wait
  | query
  deriving DecidableEq, Repr

structure Command where
  id : ℕ
  kind : CommandKind
  deriving DecidableEq, Repr

/-- The operations of a FIFO of commands; the code does not use the last two. -/
class Fifo (Q : Type) where
  push : Q → Command → Q × Bool
  pop : Q → Q × Option Command
  empty : Q → Bool
  contents : Q → List Command
  capacity : Q → ℕ

instance : Fifo (LockFreeFifo Command) where
  push q c := q.push (some c)
  pop := LockFreeFifo.pop
  empty := LockFreeFifo.empty
  contents := LockFreeFifo.contents
  capacity := LockFreeFifo.capacity

structure CommandQueue (Q : Type) where
  inFifo : Q
  outFifo : Q
  active : Bool

/-- The constructor: both FIFOs get the same size. -/
def CommandQueue.new (maxSize fuel size : ℕ) : Option (CommandQueue (LockFreeFifo Command)) := do
  let inFifo ← LockFreeFifo.new maxSize fuel size
  let outFifo ← LockFreeFifo.new maxSize fuel size
  return { inFifo, outFifo, active := true }

/-- The public member functions that the non-realtime thread calls. -/
inductive Call
  | push (kind : CommandKind)
  | wait
  | cleanupCommands
  | deactivate
  | reactivate
  deriving DecidableEq, Repr

/-- A point inside a function of the non-realtime thread: what it does when it runs next. -/
inductive Frame
  /-- entering `push(cmd)` -/
  | push (cmd : Command)
  /-- the retry loop of `push(cmd)` -/
  | pushIn (cmd : Command)
  /-- the loop of `cleanup_commands()` -/
  | cleanupCommands
  /-- `while (!done)` in `wait()` -/
  | waitLoop (cmd : Command)
  /-- the test of `deactivate()`, after its cleanup -/
  | deactivate
  /-- the assignment of `reactivate()`, after its cleanup -/
  | reactivate
  deriving DecidableEq, Repr

/-- A point of `process_commands()`; `holding cmd` is between `execute()` and `_out_fifo.push`. -/
inductive Rt
  | idle
  | loop
  | holding (cmd : Command)
  deriving DecidableEq, Repr

/-- The command between `execute()` and `_out_fifo.push`. -/
def Rt.held : Rt → List Command
  | .holding cmd => [cmd]
  | _ => []

structure Threads (Q : Type) where
  queue : CommandQueue Q
  stack : List Frame
  rt : Rt
  nextId : ℕ
  executed : List Command
  cleaned : List Command
  /-- the commands for which `_out_fifo.push` has returned `false` -/
  lost : List Command

namespace Threads

variable {Q : Type}

/-- Both threads outside of all member functions. -/
def init (queue : CommandQueue Q) : Threads Q :=
  { queue, stack := [], rt := .idle, nextId := 0, executed := [], cleaned := [], lost := [] }

def setIn (s : Threads Q) (q : Q) : Threads Q := { s with queue.inFifo := q }

def setOut (s : Threads Q) (q : Q) : Threads Q := { s with queue.outFifo := q }

def goto (s : Threads Q) (stack : List Frame) : Threads Q := { s with stack }

/-- Go on with `frames` of a new command. -/
def spawn (s : Threads Q) (kind : CommandKind) (frames : Command → List Frame) : Threads Q :=
  { s with stack := frames ⟨s.nextId, kind⟩, nextId := s.nextId + 1 }

def goRt (s : Threads Q) (rt : Rt) : Threads Q := { s with rt }

def setActive (s : Threads Q) (active : Bool) : Threads Q := { s with queue.active := active }

/-- `cmd->execute()` -/
def execute (s : Threads Q) (cmd : Command) : Threads Q :=
  { s with executed := s.executed ++ [cmd] }

def markCleaned (s : Threads Q) (cmd : Command) : Threads Q :=
  { s with cleaned := s.cleaned ++ [cmd] }

def lose (s : Threads Q) (cmd : Command) : Threads Q := { s with lost := s.lost ++ [cmd] }

/-- `_cleanup(cmd)`, called with `frames` still to run; a query calls `push` again. -/
def cleanup (s : Threads Q) (cmd : Command) (frames : List Frame) : Threads Q :=
  match cmd.kind with
  | .query => (s.markCleaned cmd).spawn .query fun cmd => .push cmd :: frames
  | _ => (s.markCleaned cmd).goto frames

/-- What a call by the non-realtime thread, outside of all member functions, starts. -/
def enter (s : Threads Q) : Call → Threads Q
  | .push kind => s.spawn kind fun cmd => [.push cmd]
  | .wait => s.spawn .wait fun cmd => [.push cmd, .cleanupCommands, .waitLoop cmd]
  | .cleanupCommands => s.goto [.cleanupCommands]
  | .deactivate => s.goto [.cleanupCommands, .deactivate]
  | .reactivate => s.goto [.cleanupCommands, .reactivate]

variable [Fifo Q]

/-- One step of the non-realtime thread inside a member function. -/
def nrt (s : Threads Q) : Option (Threads Q) :=
  match s.stack with
  | [] => none
  | .push cmd :: fs =>
    some (if s.queue.active then s.goto (.cleanupCommands :: .pushIn cmd :: fs)
      else (s.execute cmd).cleanup cmd fs)
  | .pushIn cmd :: fs =>
    let (q, ok) := Fifo.push s.queue.inFifo cmd
    some (if ok then (s.setIn q).goto fs else s)
  | .cleanupCommands :: fs =>
    match Fifo.pop s.queue.outFifo with
    | (q, none) => some ((s.setOut q).goto fs)
    | (q, some cmd) => some ((s.setOut q).cleanup cmd (.cleanupCommands :: fs))
  | .waitLoop cmd :: fs =>
    -- `done` is set by the cleanup of `cmd`
    some (if cmd ∈ s.cleaned then s.goto fs else s.goto (.cleanupCommands :: .waitLoop cmd :: fs))
  | .deactivate :: fs =>
    some (if Fifo.empty s.queue.inFifo then (s.setActive false).goto fs else s.goto fs)
  | .reactivate :: fs => some ((s.setActive true).goto fs)

/-- One step of the realtime thread, which calls `process_commands()` again and again. -/
def rtStep (s : Threads Q) : Threads Q :=
  match s.rt with
  | .idle => s.goRt .loop
  | .loop =>
    match Fifo.pop s.queue.inFifo with
    | (q, none) => (s.setIn q).goRt .idle
    | (q, some cmd) => ((s.setIn q).execute cmd).goRt (.holding cmd)
  | .holding cmd =>
    match Fifo.push s.queue.outFifo cmd with
    | (q, true) => (s.setOut q).goRt .loop
    | (_, false) => (s.lose cmd).goRt .loop

inductive Action
  | call (c : Call)
  | nrt
  | rt
  deriving DecidableEq, Repr

def step (s : Threads Q) : Action → Option (Threads Q)
  | .call c => if s.stack = [] then some (s.enter c) else none
  | .nrt => s.nrt
  | .rt => some s.rtStep

/-! ## The order of the commands -/

/-- The command whose `push` has its effect in this step: the command goes into `_in_fifo`, or it is
executed immediately. -/
def pushes (s : Threads Q) : Action → List Command
  | .nrt =>
    match s.stack with
    | .push cmd :: _ => if s.queue.active then [] else [cmd]
    | .pushIn cmd :: _ => if (Fifo.push s.queue.inFifo cmd).2 then [cmd] else []
    | _ => []
  | _ => []

/-- The command whose `execute()` is called in this step. -/
def executes (s : Threads Q) : Action → List Command
  | .call _ => []
  | .nrt =>
    match s.stack with
    | .push cmd :: _ => if s.queue.active then [] else [cmd]
    | _ => []
  | .rt =>
    match s.rt with
    | .loop => (Fifo.pop s.queue.inFifo).2.toList
    | _ => []

/-- The command whose `cleanup()` is called in this step, after the execution. -/
def cleans (s : Threads Q) : Action → List Command
  | .nrt =>
    match s.stack with
    | .push cmd :: _ => if s.queue.active then [] else [cmd]
    | .cleanupCommands :: _ => (Fifo.pop s.queue.outFifo).2.toList
    | _ => []
  | _ => []

/-- The realtime thread does not run while the queue is inactive. -/
def RtStopped (s : Threads Q) (a : Action) : Prop :=
  ∀ s', s.step a = some s' → s'.queue.active = false → a ≠ .rt ∧ s'.rt = .idle

instance (s : Threads Q) (a : Action) : Decidable (s.RtStopped a) :=
  inferInstanceAs
    (Decidable (∀ s' ∈ s.step a, s'.queue.active = false → a ≠ .rt ∧ s'.rt = .idle))

/-! ## What has become of the commands -/

/-- The number of commands that are on their way through the realtime thread. -/
def inFlight (s : Threads Q) : ℕ :=
  (Fifo.contents s.queue.inFifo).length + s.rt.held.length +
    (Fifo.contents s.queue.outFifo).length

/-- If the step is an `_in_fifo.push(cmd)` that succeeds, then `_out_fifo` alone could take `cmd`
and everything that is in flight. -/
def Room (s : Threads Q) (a : Action) : Prop :=
  a = .nrt → ∀ cmd fs, s.stack = .pushIn cmd :: fs → (Fifo.push s.queue.inFifo cmd).2 = true →
    s.inFlight < Fifo.capacity s.queue.outFifo

/-- Every executed command is cleaned up, or on its way to the cleanup. -/
def HandedBack (s : Threads Q) : Prop :=
  ∀ cmd ∈ s.executed,
    cmd ∈ s.cleaned ∨ cmd ∈ s.rt.held ∨ cmd ∈ Fifo.contents s.queue.outFifo

/-- The non-realtime thread is in the loop of a `wait()` that has pushed `cmd`. -/
def Waiting (s : Threads Q) (cmd : Command) : Prop :=
  s.stack = [.waitLoop cmd] ∨ s.stack = [.cleanupCommands, .waitLoop cmd]

end Threads

/-- The threads and the commands in the order of their `push`. -/
structure History (Q : Type) where
  threads : Threads Q
  pushed : List Command

namespace History

variable {Q : Type}

def init (queue : CommandQueue Q) : History Q := { threads := .init queue, pushed := [] }

variable [Fifo Q]

def step (h : History Q) (a : Threads.Action) : Option (History Q) :=
  (h.threads.step a).map fun threads => { threads, pushed := h.pushed ++ h.threads.pushes a }

def RtStopped (h : History Q) (a : Threads.Action) : Prop := h.threads.RtStopped a

instance (h : History Q) (a : Threads.Action) : Decidable (h.RtStopped a) :=
  inferInstanceAs (Decidable (h.threads.RtStopped a))

end History

/-! ## The list that a FIFO stands for -/

structure BoundedFifo where
  items : List Command
  capacity : ℕ

namespace BoundedFifo

def push (b : BoundedFifo) (cmd : Command) : BoundedFifo × Bool :=
  if b.items.length < b.capacity then ({ b with items := b.items ++ [cmd] }, true) else (b, false)

def pop (b : BoundedFifo) : BoundedFifo × Option Command :=
  match b.items with
  | [] => (b, none)
  | cmd :: items => ({ b with items }, some cmd)

instance : Fifo BoundedFifo where
  push := push
  pop := pop
  empty b := b.items.isEmpty
  contents := items
  capacity := capacity

theorem push_of_lt {b : BoundedFifo} (h : b.items.length < b.capacity) (cmd : Command) :
    Fifo.push b cmd = ({ b with items := b.items ++ [cmd] }, true) := if_pos h

theorem push_of_not_lt {b : BoundedFifo} (h : ¬ b.items.length < b.capacity) (cmd : Command) :
    Fifo.push b cmd = (b, false) := if_neg h

theorem push_true {b b' : BoundedFifo} {cmd : Command} (h : Fifo.push b cmd = (b', true)) :
    b.items.length < b.capacity ∧ b' = { b with items := b.items ++ [cmd] } := by
  by_cases hlt : b.items.length < b.capacity
  · rw [push_of_lt hlt] at h
    cases h
    exact ⟨hlt, rfl⟩
  · rw [push_of_not_lt hlt] at h
    cases h

theorem push_false {b b' : BoundedFifo} {cmd : Command} (h : Fifo.push b cmd = (b', false)) :
    ¬ b.items.length < b.capacity := by
  intro hlt
  rw [push_of_lt hlt] at h
  cases h

theorem pop_of_nil {b : BoundedFifo} (h : b.items = []) : Fifo.pop b = (b, none) := by
  obtain ⟨items, n⟩ := b
  subst h
  rfl

theorem pop_of_cons {b : BoundedFifo} {cmd : Command} {items : List Command}
    (h : b.items = cmd :: items) : Fifo.pop b = ({ b with items }, some cmd) := by
  obtain ⟨items', n⟩ := b
  subst h
  rfl

theorem pop_none {b b' : BoundedFifo} (h : Fifo.pop b = (b', none)) : b' = b ∧ b.items = [] := by
  obtain ⟨items, n⟩ := b
  cases items with
  | nil =>
    cases h
    exact ⟨rfl, rfl⟩
  | cons => cases h

theorem pop_some {b b' : BoundedFifo} {cmd : Command} (h : Fifo.pop b = (b', some cmd)) :
    b = { b' with items := cmd :: b'.items } := by
  obtain ⟨items, n⟩ := b
  cases items with
  | nil => cases h
  | cons =>
    cases h
    rfl

/-- The ring `q` stands for the bounded list `b`. -/
def Abstracts (b : BoundedFifo) (q : LockFreeFifo Command) : Prop :=
  q.Holds b.items ∧ q.size = b.capacity + 1

end BoundedFifo

end Apf
