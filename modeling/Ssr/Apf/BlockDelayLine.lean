import Ssr.Apf.Math

/-!
# Block-based delay lines (`apf/blockdelayline.h`)

A circular iterator over the samples is its index in the container. `default` is the value of `T()`.
The constructors fail if an assertion does or if the container would be larger than `maxSize`.
-/

set_option autoImplicit false

namespace Apf

/-! ## `circular_iterator` -/

section
variable (length : ℕ)

/-- `operator++` -/
def circularNext (index : ℕ) : ℕ := if index + 1 = length then 0 else index + 1

/-- `operator+=` -/
def circularAdd (index : ℕ) (n : ℤ) : ℕ := (wrap (toDifference (index + n)) length).toNat

/-- `operator-` of two iterators. -/
def circularDistance (lhs rhs : ℕ) : ℕ := if lhs < rhs then lhs + length - rhs else lhs - rhs

end

variable {T : Type}

/-! ## `BlockDelayLine` -/

structure BlockDelayLine (T : Type) where
  blockSize : ℕ
  maxDelay : ℕ
  /-- the size of `_data` -/
  size : ℕ
  data : ℕ → T
  dataCirculator : ℕ
  blockCirculator : ℕ

namespace BlockDelayLine

def numberOfBlocks (blockSize maxDelay : ℕ) : ℕ :=
  max 2 (sub64 (add64 maxDelay (mul64 2 blockSize)) 1 / blockSize)

/-- The constructor. -/
def new [Inhabited T] (maxSize blockSize maxDelay : ℕ) : Option (BlockDelayLine T) :=
  let size := mul64 (numberOfBlocks blockSize maxDelay) blockSize
  if blockSize = 0 then none
  else if maxSize < size then none
  else if size = 0 then none
  else
    some {
      blockSize, maxDelay, size
      data := fun _ => default
      dataCirculator := 0
      blockCirculator := 0 }

variable (l : BlockDelayLine T)

def delayIsValid (delay : ℕ) : Bool := delay ≤ l.maxDelay

def advance : BlockDelayLine T :=
  { l with
    blockCirculator := circularAdd l.size l.blockCirculator (toDifference l.blockSize)
    dataCirculator := circularAdd l.size l.dataCirculator (toDifference l.blockSize) }

/-- The write pointer is a plain pointer, which does not wrap. -/
def writeBlock (source : ℕ → T) : BlockDelayLine T :=
  let l := l.advance
  let writePointer := l.blockCirculator
  { l with
    data := fun j =>
      if writePointer ≤ j ∧ j < writePointer + l.blockSize then source (j - writePointer)
      else l.data j }

def getReadCirculator (delay : ℕ) : ℕ :=
  circularAdd l.size l.dataCirculator (toDifference (-toDifference delay))

/-- `std::copy` of `n` samples, the first of which is at `index`. -/
def copy : ℕ → ℕ → List T
  | 0, _ => []
  | n + 1, index => l.data index :: copy n (circularNext l.size index)

/-- `read_block`: what is written to the destination. -/
def readBlock (delay : ℕ) : Option (List T) :=
  if !l.delayIsValid delay then none
  else
    let source := l.getReadCirculator delay
    let last := circularAdd l.size source (toDifference l.blockSize)
    some (l.copy (circularDistance l.size last source) source)

end BlockDelayLine

/-! ## `NonCausalBlockDelayLine` -/

structure NonCausalBlockDelayLine (T : Type) extends BlockDelayLine T where
  initialDelay : ℤ

namespace NonCausalBlockDelayLine

/-- The constructor. -/
def new [Inhabited T] (maxSize blockSize maxDelay initialDelay : ℕ) :
    Option (NonCausalBlockDelayLine T) :=
  (BlockDelayLine.new maxSize blockSize (add64 maxDelay initialDelay)).map fun base =>
    { base with initialDelay := toDifference initialDelay }

variable (l : NonCausalBlockDelayLine T)

def delayIsValid (delay : ℤ) : Bool :=
  if delay < toDifference (-l.initialDelay) then false
  else if delay < 0 then true
  else l.toBlockDelayLine.delayIsValid (toSize (delay + l.initialDelay))

def writeBlock (source : ℕ → T) : NonCausalBlockDelayLine T :=
  { l with toBlockDelayLine := l.toBlockDelayLine.writeBlock source }

def readBlock (delay : ℤ) : Option (List T) :=
  if delay < toDifference (-l.initialDelay) then none
  else l.toBlockDelayLine.readBlock (toSize (delay + l.initialDelay))

end NonCausalBlockDelayLine

end Apf
