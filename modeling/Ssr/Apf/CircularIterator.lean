import Ssr.Apf.Math
import Mathlib.Algebra.Torsor.Defs

/-!
# Circular iterators (`circular_iterator` in `apf/iterator.h`)

`I` is the type of the underlying random access iterators: `n +ᵥ it` is `it + n` and `it -ᵥ it'` is
the difference. The arithmetic of the difference type is exact; its overflow is undefined behaviour.
-/

set_option autoImplicit false

namespace Apf

structure CircularIterator (I : Type) where
  begin : I
  past : I
  current : I
  deriving DecidableEq

namespace CircularIterator

variable {I α : Type}

section
variable [DecidableEq I]

/-- The constructor with an explicit current iterator. -/
def new (begin past current : I) : CircularIterator I :=
  { begin, past, current := if current = past then begin else current }

/-- `operator==` -/
def same (it rhs : CircularIterator I) : Bool := it.current == rhs.current

end

/-- The constructor with an implicit current iterator. -/
def ofRange (begin past : I) : CircularIterator I := { begin, past, current := begin }

variable [AddTorsor ℤ I]

/-- The constructor from one iterator. -/
def stagnant (begin : I) : CircularIterator I :=
  { begin, past := (1 : ℤ) +ᵥ begin, current := begin }

/-- `operator+=` -/
def addAssign (it : CircularIterator I) (n : ℤ) : CircularIterator I :=
  let length := it.past -ᵥ it.begin
  let index := it.current -ᵥ it.begin
  let index := index + n
  { it with current := wrap index length +ᵥ it.begin }

/-- `it + n` and `n + it` -/
def add (it : CircularIterator I) (n : ℤ) : CircularIterator I := it.addAssign n

/-- `it -= n` and `it - n` -/
def sub (it : CircularIterator I) (n : ℤ) : CircularIterator I := it.addAssign (-n)

/-- The difference of two iterators over the same range. -/
def diff (lhs rhs : CircularIterator I) : ℤ :=
  let d := lhs.current -ᵥ rhs.current
  if d < 0 then ((lhs.current -ᵥ lhs.begin) +ᵥ rhs.past) -ᵥ rhs.current else d

/-- `*it`, given the values of the underlying iterators. -/
def deref (it : CircularIterator I) (values : I → α) : α := values it.current

/-- `it[n]` -/
def subscript (it : CircularIterator I) (values : I → α) (n : ℤ) : α := (it.add n).deref values

variable [DecidableEq I]

/-- `++it` -/
def next (it : CircularIterator I) : CircularIterator I :=
  let current := (1 : ℤ) +ᵥ it.current
  { it with current := if current = it.past then it.begin else current }

/-- `--it` -/
def prev (it : CircularIterator I) : CircularIterator I :=
  let current := if it.current = it.begin then it.past else it.current
  { it with current := (-1 : ℤ) +ᵥ current }

/-- The operators that move an iterator. -/
inductive Move
  | next
  | prev
  | add (n : ℤ)
  | sub (n : ℤ)
  deriving DecidableEq, Repr

def move (it : CircularIterator I) : Move → CircularIterator I
  | .next => it.next
  | .prev => it.prev
  | .add n => it.addAssign n
  | .sub n => it.sub n

end CircularIterator

/-- A pointer into an array, by its position. -/
structure Pointer where
  position : ℤ
  deriving DecidableEq, Repr

instance : AddTorsor ℤ Pointer where
  vadd n p := ⟨n + p.position⟩
  zero_vadd p := congrArg Pointer.mk (Int.zero_add p.position)
  add_vadd m n p := congrArg Pointer.mk (Int.add_assoc m n p.position)
  vsub p p' := p.position - p'.position
  nonempty := ⟨⟨0⟩⟩
  vsub_vadd' p p' := congrArg Pointer.mk (Int.sub_add_cancel p.position p'.position)
  vadd_vsub' n p := Int.add_sub_cancel n p.position

end Apf
