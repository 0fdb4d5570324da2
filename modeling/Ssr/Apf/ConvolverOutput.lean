import Ssr.Apf.Convolver

/-!
# Changing the filter of a convolution (`Output` in `apf/convolver.h`)

An `Output` has a pointer to a node for every partition of its filter; `π` is the type of these
pointers. A new filter is used at once for the first partition only. The pointer to partition
`i + 1` waits in a queue of length `i + 1`, whose front `rotateQueues` takes over.
-/

set_option autoImplicit false

namespace Apf.Conv

variable {π : Type}

structure Output (π : Type) where
  /-- the address of `_empty_partition` -/
  emptyPartition : π
  filterPtrs : List π
  queues : List (List (Option π))
  deriving DecidableEq, Repr

namespace Output

/-- The constructor. -/
def new (emptyPartition : π) (partitions : ℕ) : Output π :=
  { emptyPartition
    filterPtrs := List.replicate partitions emptyPartition
    queues := (List.range (partitions - 1)).map fun i => List.replicate (i + 1) none }

/-- `set_filter`, with pointers to the partitions of the filter. -/
def setFilter (o : Output π) (filter : List π) : Output π :=
  { o with
    filterPtrs :=
      match filter with
      | [] => o.filterPtrs
      | partition :: _ => o.filterPtrs.set 0 partition
    queues := o.queues.mapIdx fun i queue =>
      queue.set i (some (filter[i + 1]?.getD o.emptyPartition)) }

/-- `queues_empty`: there is no valid pointer in the last queue. -/
def queuesEmpty (o : Output π) : Bool :=
  match o.queues.getLast? with
  | none => true
  | some queue => queue.all Option.isNone

/-- The loop over the queues; the pointers begin at `target`. -/
def rotateTargets : List π → List (List (Option π)) → List π
  | target :: targets, queue :: queues =>
    -- a front element that is valid is used
    queue.head?.join.getD target :: rotateTargets targets queues
  | targets, _ => targets

/-- `rotate_queues`: the first partition has no queue. -/
def rotateQueues (o : Output π) : Output π :=
  { o with
    filterPtrs :=
      match o.filterPtrs with
      | [] => []
      | first :: targets => first :: rotateTargets targets o.queues
    queues := o.queues.map fun queue => queue.tail ++ [none] }

end Output

/-- `transform_nested`: combine two filters partition by partition; a missing partition is taken for
zero, and so is one that has the flag. -/
def transformNested {α : Type} [Zero α] (f : α → α → α) (in1 in2 : List (FftNode α)) :
    List (FftNode α) → List (FftNode α)
  | [] => []
  | result :: out =>
    let node :=
      match in1.head?.filter (!·.zero), in2.head?.filter (!·.zero) with
      | none, none => { result with zero := true }
      | none, some it2 => { data := fun i => f 0 (it2.data i), zero := false }
      | some it1, none => { data := fun i => f (it1.data i) 0, zero := false }
      | some it1, some it2 => { data := fun i => f (it1.data i) (it2.data i), zero := false }
    node :: transformNested f in1.tail in2.tail out

end Apf.Conv
