import Ssr.Apf.Math
import Ssr.Lib.Traverse

/-!
# Matrices (`fixed_matrix` in `apf/container.h`)

A `fixed_matrix` is one flat buffer with two views of it, `channels` and `slices`. A pointer is the
distance from the beginning of the buffer. The views are ranges of iterators (`channels_iterator`,
`slices_iterator`), and so is what these point to: a channel is a range of pointers, a slice is a
range of `stride_iterator`s.
-/

set_option autoImplicit false

namespace Apf

open Lib (traverse)

/-- `has_begin_and_end<I>` -/
structure HasBeginAndEnd (I : Type) where
  begin : I
  past : I

/-- `stride_iterator<T*>` -/
structure StrideIterator where
  iter : ℤ
  step : ℤ
  deriving DecidableEq, Repr

namespace StrideIterator

/-- The constructor; the step is converted to `difference_type`. -/
def new (iter : ℤ) (step : ℕ) : StrideIterator := { iter, step := toDifference step }

def next (it : StrideIterator) : StrideIterator := { it with iter := it.iter + it.step }

/-- `operator+=` and `operator+` -/
def add (it : StrideIterator) (n : ℤ) : StrideIterator :=
  { it with iter := it.iter + n * it.step }

/-- The element that `operator[]` refers to. -/
def subscript (it : StrideIterator) (n : ℤ) : ℤ := it.iter + n * it.step

end StrideIterator

abbrev Channel := HasBeginAndEnd ℤ

abbrev Slice := HasBeginAndEnd StrideIterator

structure ChannelsIterator where
  base : StrideIterator
  size : ℕ

namespace ChannelsIterator

def new (base : ℤ) (step : ℕ) : ChannelsIterator := { base := .new base step, size := step }

def deref (it : ChannelsIterator) : Channel :=
  { begin := it.base.iter, past := it.base.iter + it.size }

def next (it : ChannelsIterator) : ChannelsIterator := { it with base := it.base.next }

def add (it : ChannelsIterator) (n : ℤ) : ChannelsIterator := { it with base := it.base.add n }

/-- `operator==` -/
def same (it rhs : ChannelsIterator) : Bool := it.base == rhs.base

end ChannelsIterator

structure SlicesIterator where
  base : ℤ
  maxChannels : ℕ
  maxSlices : ℕ

namespace SlicesIterator

def deref (it : SlicesIterator) : Slice :=
  let temp := StrideIterator.new it.base it.maxSlices
  { begin := temp, past := temp.add (toDifference it.maxChannels) }

def next (it : SlicesIterator) : SlicesIterator := { it with base := it.base + 1 }

def add (it : SlicesIterator) (n : ℤ) : SlicesIterator := { it with base := it.base + n }

/-- `operator==` -/
def same (it rhs : SlicesIterator) : Bool := it.base == rhs.base

end SlicesIterator

structure FixedMatrix (T : Type) where
  /-- the elements of the base class; the capacity of this vector is its size -/
  data : List T
  channels : HasBeginAndEnd ChannelsIterator
  slices : HasBeginAndEnd SlicesIterator
  channelPtrs : List ℤ
  channelPtrsCapacity : ℕ

/-- `max_size()` of a vector of elements and of a vector of pointers. The differences of their
iterators are representable. -/
structure VectorLimits where
  elements : ℕ
  pointers : ℕ
  elements_lt : elements < 2 ^ 63
  pointers_lt : pointers < 2 ^ 63

namespace FixedMatrix

variable {T : Type}

inductive Error
  /-- of `std::vector` -/
  | lengthError
  | logicError (what : String)
  deriving DecidableEq, Repr

/-- The loop of `initialize` that fills `_channel_ptrs`; `emplace_back` throws when there is no room
left. -/
def collectPtrs : ℕ → ChannelsIterator → ChannelsIterator → Except Error (List ℤ)
  | room, it, past =>
    if it.same past then .ok []
    else
      match room with
      | 0 => .error (.logicError ("Bug: fixed_vector::emplace_back() " ++
          "is only allowed if size < capacity!"))
      | room + 1 => (collectPtrs room it.next past).map (it.deref.begin :: ·)

/-- The views that `initialize` makes; `data()` is the beginning of the buffer. -/
def makeChannels (maxChannels maxSlices : ℕ) : HasBeginAndEnd ChannelsIterator :=
  let first := ChannelsIterator.new 0 maxSlices
  { begin := first, past := first.add (toDifference maxChannels) }

def makeSlices (maxChannels maxSlices : ℕ) : HasBeginAndEnd SlicesIterator :=
  let first : SlicesIterator := { base := 0, maxChannels, maxSlices }
  { begin := first, past := first.add (toDifference maxSlices) }

variable [Inhabited T]

/-- `initialize(max_channels, max_slices)` -/
def init (limits : VectorLimits) (m : FixedMatrix T) (maxChannels maxSlices : ℕ) :
    Except Error (FixedMatrix T) :=
  if m.data.length ≠ 0 then
    .error (.logicError "Bug: fixed_vector::resize() is only allowed if capacity == 0!")
  else if limits.elements < mul64 maxChannels maxSlices then .error .lengthError
  else
    let channels := makeChannels maxChannels maxSlices
    if m.channelPtrsCapacity ≠ 0 then
      .error (.logicError "Bug: fixed_vector::reserve() is only allowed if capacity == 0!")
    else if limits.pointers < maxChannels then .error .lengthError
    else
      (collectPtrs maxChannels channels.begin channels.past).map fun channelPtrs =>
        { data := List.replicate (mul64 maxChannels maxSlices) default, channels
          slices := makeSlices maxChannels maxSlices
          channelPtrs, channelPtrsCapacity := maxChannels }

/-- The members before the constructor has called `initialize(0, 0)`. -/
def raw : FixedMatrix T :=
  { data := []
    channels := ⟨⟨⟨0, 0⟩, 0⟩, ⟨⟨0, 0⟩, 0⟩⟩
    slices := ⟨⟨0, 0, 0⟩, ⟨0, 0, 0⟩⟩
    channelPtrs := [], channelPtrsCapacity := 0 }

/-- The constructor, which calls the default constructor first. -/
def new (limits : VectorLimits) (maxChannels maxSlices : ℕ) : Except Error (FixedMatrix T) :=
  match (raw : FixedMatrix T).init limits 0 0 with
  | .error e => .error e
  | .ok m => m.init limits maxChannels maxSlices

omit [Inhabited T]

/-! ## Elements -/

/-- The element `channels[c][s]`. -/
def channelElement (m : FixedMatrix T) (c s : ℤ) : ℤ := (m.channels.begin.add c).deref.begin + s

/-- The element `slices[s][c]`. -/
def sliceElement (m : FixedMatrix T) (s c : ℤ) : ℤ :=
  (m.slices.begin.add s).deref.begin.subscript c

/-- The elements channel by channel, each from its `begin()` to its `end()`. -/
def channelElements (fuel : ℕ) (m : FixedMatrix T) : Option (List (List ℤ)) := do
  let channels ←
    traverse ChannelsIterator.next ChannelsIterator.same fuel m.channels.begin m.channels.past
  channels.mapM fun it => traverse (· + 1) (· == ·) fuel it.deref.begin it.deref.past

/-- The elements slice by slice. -/
def sliceElements (fuel : ℕ) (m : FixedMatrix T) : Option (List (List ℤ)) := do
  let slices ← traverse SlicesIterator.next SlicesIterator.same fuel m.slices.begin m.slices.past
  slices.mapM fun it =>
    (traverse StrideIterator.next (· == ·) fuel it.deref.begin it.deref.past).map
      (·.map StrideIterator.iter)

def read (m : FixedMatrix T) (pointer : ℤ) : Option T :=
  if pointer < 0 then none else m.data[pointer.toNat]?

/-- The values that are copied if the slices are given to `set_channels`. -/
def readSlices (fuel : ℕ) (m : FixedMatrix T) : Option (List (List T)) := do
  let slices ← m.sliceElements fuel
  slices.mapM (·.mapM m.read)

/-! ## `set_channels` -/

/-- `std::copy` to a pointer; `none` if an element is written outside the buffer. -/
def copyTo (data : List T) (pointer : ℤ) : List T → Option (List T)
  | [] => some data
  | x :: xs =>
    if pointer < 0 ∨ data.length ≤ pointer.toNat then none
    else copyTo (data.set pointer.toNat x) (pointer + 1) xs

/-- The loop of `set_channels`. -/
def setChannelsFrom (data : List T) (target : ChannelsIterator) : List (List T) → Option (List T)
  | [] => some data
  | row :: rows =>
    (copyTo data target.deref.begin row).bind fun data => setChannelsFrom data target.next rows

/-- `set_channels(ch)`, given the values of `ch`. -/
def setChannels (m : FixedMatrix T) (ch : List (List T)) : Option (FixedMatrix T) :=
  (setChannelsFrom m.data m.channels.begin ch).map fun data => { m with data }

end FixedMatrix

end Apf
