import Ssr.Apf.CommandQueue
import Mathlib.Data.List.Infix
import Mathlib.Logic.Function.Basic

/-!
# Lists for the realtime thread (`apf/rtlist.h`)

The non-realtime thread adds elements to an `RtList` and removes them by commands. Each command has
a list of its own: an `AddCommand` brings its elements along in it, a `RemCommand` or `ClearCommand`
takes the elements away in it, and its `cleanup()` deletes them. `RtListThreads` is an `RtList`
together with the two threads of its queue, which also carries other commands.
-/

set_option autoImplicit false

namespace Apf

variable {α : Type}

/-- The commands of an `RtList`; a single element is a range of one. -/
inductive ListCommand (α : Type)
  | add (items : List α)
  | rem (delinquents : List α)
  | clear
  deriving DecidableEq, Repr

namespace ListCommand

/-- The list of a new command. -/
def initial : ListCommand α → List α
  | .add items => items
  | .rem _ | .clear => []

/-- What the command is meant to do with a list. -/
def apply [DecidableEq α] (list : List α) : ListCommand α → List α
  | .add items => list ++ items
  | .rem delinquents => list.diff delinquents
  | .clear => []

end ListCommand

structure RtList (α : Type) where
  theActualList : List α
  /-- the list of the command with this id -/
  own : ℕ → List α
  /-- the arguments of `delete` -/
  deleted : List α
  /-- an `execute()` has thrown -/
  threw : Bool

namespace RtList

def new : RtList α := { theActualList := [], own := fun _ => [], deleted := [], threw := false }

/-- The constructor of the command. -/
def construct (l : RtList α) (id : ℕ) (c : ListCommand α) : RtList α :=
  { l with own := Function.update l.own id c.initial }

section
variable [DecidableEq α]

/-- The loop of `RemCommand::execute`: `dst` and `splice` are the actual list and the command's own;
`true` if an item is not found. -/
def remLoop (dst splice : List α) : List α → List α × List α × Bool
  | [] => (dst, splice, false)
  | i :: delinquents =>
    if i ∈ dst then remLoop (dst.erase i) (i :: splice) delinquents else (dst, splice, true)

def execute (l : RtList α) (id : ℕ) : ListCommand α → RtList α
  | .add _ =>
    { l with
      theActualList := l.theActualList ++ l.own id
      own := Function.update l.own id [] }
  | .rem delinquents =>
    let (dst, splice, notFound) := remLoop l.theActualList (l.own id) delinquents
    { l with
      theActualList := dst
      own := Function.update l.own id splice
      threw := l.threw || notFound }
  | .clear =>
    { l with
      theActualList := l.own id
      own := Function.update l.own id l.theActualList }

end

/-- Nothing to do for an `AddCommand`. -/
def cleanup (l : RtList α) (id : ℕ) : ListCommand α → RtList α
  | .add _ => l
  | .rem _ | .clear =>
    { l with
      own := Function.update l.own id []
      deleted := l.deleted ++ l.own id }

/-- The destructor. -/
def destroy (l : RtList α) : RtList α :=
  { l with
    theActualList := []
    deleted := l.deleted ++ l.theActualList }

end RtList

structure RtListThreads (Q α : Type) where
  history : History Q
  list : RtList α
  /-- the commands of the list by their ids, `none` for other commands -/
  commands : ℕ → Option (ListCommand α)
  /-- the calls of `add`, `rem` and `clear` so far -/
  called : List (ListCommand α)

namespace RtListThreads

variable {Q : Type}

def init (queue : CommandQueue Q) : RtListThreads Q α :=
  { history := .init queue, list := .new, commands := fun _ => none, called := [] }

inductive Action (α : Type)
  /-- `add`, `rem` or `clear` -/
  | list (c : ListCommand α)
  /-- everything that has nothing to do with lists -/
  | threads (a : Threads.Action)

/-- What the threads do: `add`, `rem` and `clear` push a new command. -/
def Action.ofThreads : Action α → Threads.Action
  | .list _ => .call (.push .plain)
  | .threads a => a

variable [DecidableEq α]

/-- `execute()` of the commands of the list among `cmds`. -/
def executeAll (commands : ℕ → Option (ListCommand α)) (list : RtList α) (cmds : List Command) :
    RtList α :=
  cmds.foldl (fun l cmd => (commands cmd.id).elim l (l.execute cmd.id)) list

def cleanupAll (commands : ℕ → Option (ListCommand α)) (list : RtList α) (cmds : List Command) :
    RtList α :=
  cmds.foldl (fun l cmd => (commands cmd.id).elim l (l.cleanup cmd.id)) list

variable [Fifo Q]

def step (s : RtListThreads Q α) : Action α → Option (RtListThreads Q α)
  | .list c =>
    let id := s.history.threads.nextId
    (s.history.step (Action.list c).ofThreads).map fun history =>
      { history
        list := s.list.construct id c
        commands := Function.update s.commands id (some c)
        called := s.called ++ [c] }
  | .threads a =>
    (s.history.step a).map fun history =>
      let executed := executeAll s.commands s.list (s.history.threads.executes a)
      { s with
        history
        list := cleanupAll s.commands executed (s.history.threads.cleans a) }

/-- The elements that the calls add. -/
def added (called : List (ListCommand α)) : List α := called.flatMap ListCommand.initial

/-- After the calls `called`, an element is added only if it is new, and removed only while it is a
member. -/
def Careful (called : List (ListCommand α)) : ListCommand α → Prop
  | .add items => items.Nodup ∧ ∀ x ∈ items, x ∉ added called
  | .rem delinquents => delinquents.Nodup ∧ ∀ x ∈ delinquents, x ∈ called.foldl ListCommand.apply []
  | .clear => True

/-- The calls are careful, and the realtime thread does not run while the queue is inactive. -/
def Allowed (s : RtListThreads Q α) (a : Action α) : Prop :=
  s.history.RtStopped a.ofThreads ∧ ∀ c, a = .list c → Careful s.called c

omit [Fifo Q] in
instance (called : List (ListCommand α)) : ∀ c, Decidable (Careful called c)
  | .add items => inferInstanceAs (Decidable (items.Nodup ∧ ∀ x ∈ items, x ∉ added called))
  | .rem delinquents =>
    inferInstanceAs (Decidable (delinquents.Nodup ∧
      ∀ x ∈ delinquents, x ∈ called.foldl ListCommand.apply []))
  | .clear => isTrue trivial

instance (s : RtListThreads Q α) : ∀ a, Decidable (s.Allowed a)
  | .list c => decidable_of_iff (s.history.RtStopped (Action.list c).ofThreads ∧ Careful s.called c)
      (by simp [Allowed])
  | .threads a => decidable_of_iff (s.history.RtStopped a) (by simp [Allowed, Action.ofThreads])

omit [DecidableEq α] [Fifo Q] in
/-- The commands of the list that have been executed, in this order. -/
def executed (s : RtListThreads Q α) : List (ListCommand α) :=
  s.history.threads.executed.filterMap fun cmd => s.commands cmd.id

omit [DecidableEq α] [Fifo Q] in
/-- All commands of the list have been executed and cleaned up. -/
def Finished (s : RtListThreads Q α) : Prop :=
  ∀ id c, s.commands id = some c →
    ∃ cmd ∈ s.history.threads.cleaned, cmd ∈ s.history.threads.executed ∧ cmd.id = id

end RtListThreads

end Apf
