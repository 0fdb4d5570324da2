import Mathlib.Algebra.Field.Defs
import Mathlib.Algebra.Notation.Pi.Defs
import Mathlib.Data.Nat.Notation

/-!
# The convolution engine (`apf/convolver.h`)

`Input.addBlock` and `convolve` are the two halves of the partitioned convolution, in exact
arithmetic over a field `α`. `Fftw` stands for the two transforms of the FFTW. A `Buffer` is an
array whose size is known from the context: twice the block size for the data of an `FftNode`.
-/

set_option autoImplicit false

namespace Apf.Conv

variable {α : Type}

abbrev Buffer (α : Type) := ℕ → α

/-- The execution of plans for transforms of a given size. -/
structure Fftw (α : Type) where
  /-- `FFTW_R2HC` -/
  r2hc : ℕ → Buffer α → Buffer α
  /-- `FFTW_HC2R` -/
  hc2r : ℕ → Buffer α → Buffer α

/-- `fft_node`: two blocks of time-domain or half-complex data. If `zero` is set then the data are
to be taken for zeros, whatever they are. -/
structure FftNode (α : Type) where
  data : Buffer α
  zero : Bool

def FftNode.new [Zero α] : FftNode α := { data := fun _ => 0, zero := true }

/-! ## Order of the coefficients -/

/-- `target[i] = source[j]` for each `(i, j)`. -/
def assign (target source : Buffer α) (indices : List (ℕ × ℕ)) : Buffer α :=
  indices.foldl (fun target ij => fun n => if n = ij.1 then source ij.2 else target n) target

/-- The assignments `buffer[i] = data[j]` of `_sort_coefficients`. -/
def sortIndices (blockSize : ℕ) : List (ℕ × ℕ) :=
  let partitionSize := 2 * blockSize
  [(0, 0), (1, 1), (2, 2), (3, 3), (4, blockSize), (5, partitionSize - 1), (6, partitionSize - 2),
    (7, partitionSize - 3)] ++
  (List.range (partitionSize / 8 - 1)).flatMap fun i =>
    let base := 8 + 8 * i
    (List.range 4).map (fun ii => (base + ii, base / 2 + ii)) ++
      (List.range 4).map fun ii => (base + 4 + ii, partitionSize - base / 2 - ii)

/-- `_sort_coefficients` -/
def sortCoefficients [Zero α] (blockSize : ℕ) (data : Buffer α) : Buffer α :=
  assign (fun _ => 0) data (sortIndices blockSize)

/-- `_unsort_coefficients`: the same assignments the other way. -/
def unsortCoefficients [Zero α] (blockSize : ℕ) (data : Buffer α) : Buffer α :=
  assign (fun _ => 0) data ((sortIndices blockSize).map Prod.swap)

/-- `_fft` -/
def fft [Zero α] (fftw : Fftw α) (blockSize : ℕ) (data : Buffer α) : Buffer α :=
  sortCoefficients blockSize (fftw.r2hc (2 * blockSize) data)

/-! ## Filters -/

/-- `min_partitions` -/
def minPartitions (blockSize filterSize : ℕ) : ℕ := (filterSize + blockSize - 1) / blockSize

section Filters
variable [Zero α] (fftw : Fftw α) (blockSize : ℕ)

/-- `prepare_partition`, with the coefficients that are left. -/
def preparePartition (coefficients : List α) (partition : FftNode α) : FftNode α × List α :=
  let chunk := min blockSize coefficients.length
  if chunk = 0 then ({ partition with zero := true }, coefficients.drop chunk)
  else
    -- zero padding
    let data := fun i => if i < chunk then coefficients.getD i 0 else 0
    ({ data := fft fftw blockSize data, zero := false }, coefficients.drop chunk)

/-- `prepare_filter` -/
def prepareFilter : List α → List (FftNode α) → List (FftNode α)
  | _, [] => []
  | coefficients, partition :: filter =>
    let r := preparePartition fftw blockSize coefficients partition
    r.1 :: prepareFilter r.2 filter

/-- The constructor of `Filter` from time-domain coefficients. -/
def filter (coefficients : List α) (partitions : ℕ) : List (FftNode α) :=
  let partitions :=
    if partitions ≠ 0 then partitions else minPartitions blockSize coefficients.length
  prepareFilter fftw blockSize coefficients (List.replicate partitions .new)

end Filters

/-! ## Input -/

/-- `spectra` is a list of at least two nodes: the first one, those in the middle and the last one.
-/
structure Input (α : Type) where
  blockSize : ℕ
  first : FftNode α
  middle : List (FftNode α)
  last : FftNode α

namespace Input

/-- The constructor throws if the block size is no multiple of 8, and asserts that there are
partitions. -/
def new [Zero α] (blockSize partitions : ℕ) : Option (Input α) :=
  if blockSize % 8 ≠ 0 then none
  else if partitions = 0 then none
  else some { blockSize, first := .new, middle := List.replicate (partitions - 1) .new, last := .new }

def spectra (input : Input α) : List (FftNode α) := input.first :: input.middle ++ [input.last]

def partitions (input : Input α) : ℕ := input.spectra.length - 1

end Input

section
variable [Zero α] [DecidableEq α]

/-- `has_only_zeros` of the first `n` elements. -/
def hasOnlyZeros (n : ℕ) (x : Buffer α) : Bool := (List.range n).all fun i => x i = 0

/-- `add_block` -/
def Input.addBlock (fftw : Fftw α) (input : Input α) (x : Buffer α) : Input α :=
  let blockSize := input.blockSize
  -- rotate buffers
  let current := input.last
  let nodes := input.first :: input.middle
  let next := nodes.getLast (List.cons_ne_nil _ _)
  let filled : FftNode α × FftNode α :=
    if hasOnlyZeros blockSize x then
      (if current.zero then current
        -- if the first half is not zero, the second half must be filled with zeros
        else { current with data := fun i => if i < blockSize then current.data i else 0 },
        { next with zero := true })
    else
      let firstHalf : Buffer α := fun i => if current.zero then 0 else current.data i
      ({ data := fun i => if i < blockSize then firstHalf i else x (i - blockSize), zero := false },
        -- the first half of the upcoming partition
        { data := fun i => if i < blockSize then x i else next.data i, zero := false })
  let current := filled.1
  { blockSize
    first := if current.zero then current else { current with data := fft fftw blockSize current.data }
    middle := nodes.dropLast
    last := filled.2 }

end

/-! ## The loops over the coefficients

`_multiply_partition_cpp` and `_multiply_partition_simd` as they are written; `multiplyPartition`
below is what they do to one element. -/

section
variable [Add α] [Sub α] [Mul α]

/-- `buffer[i] += x` -/
def addAt (buffer : Buffer α) (i : ℕ) (x : α) : Buffer α :=
  fun n => if n = i then buffer n + x else buffer n

/-- The indices of `for (nn = 0; nn < partitionSize; nn += 8)`. -/
def groups (partitionSize : ℕ) : List ℕ := (List.range ((partitionSize + 7) / 8)).map (8 * ·)

/-- The body of the loop in `_multiply_partition_cpp`. -/
def multiplyGroupCpp (signal filter output : Buffer α) (nn : ℕ) : Buffer α :=
  let sum := [
    -- real parts
    (nn, signal nn * filter nn - signal (nn + 4) * filter (nn + 4)),
    (nn + 1, signal (nn + 1) * filter (nn + 1) - signal (nn + 5) * filter (nn + 5)),
    (nn + 2, signal (nn + 2) * filter (nn + 2) - signal (nn + 6) * filter (nn + 6)),
    (nn + 3, signal (nn + 3) * filter (nn + 3) - signal (nn + 7) * filter (nn + 7)),
    -- imaginary parts
    (nn + 4, signal nn * filter (nn + 4) + signal (nn + 4) * filter nn),
    (nn + 5, signal (nn + 1) * filter (nn + 5) + signal (nn + 5) * filter (nn + 1)),
    (nn + 6, signal (nn + 2) * filter (nn + 6) + signal (nn + 6) * filter (nn + 2)),
    (nn + 7, signal (nn + 3) * filter (nn + 7) + signal (nn + 7) * filter (nn + 3))]
  sum.foldl (fun output s => addAt output s.1 s.2) output

/-- `_multiply_partition_cpp` -/
def multiplyPartitionCpp (partitionSize : ℕ) (output signal filter : Buffer α) : Buffer α :=
  let d1s := output 0 + signal 0 * filter 0
  let d2s := output 4 + signal 4 * filter 4
  let output := (groups partitionSize).foldl (multiplyGroupCpp signal filter) output
  fun n => if n = 0 then d1s else if n = 4 then d2s else output n

/-- `_mm_load_ps` -/
def load (buffer : Buffer α) (i : ℕ) : Fin 4 → α := fun lane => buffer (i + lane)

/-- `_mm_store_ps` -/
def store (buffer : Buffer α) (i : ℕ) (v : Fin 4 → α) : Buffer α :=
  fun n => if h : i ≤ n ∧ n < i + 4 then v ⟨n - i, by omega⟩ else buffer n

/-- The body of the loop in `_multiply_partition_simd`. -/
def multiplyGroupSimd (signal filter output : Buffer α) (i : ℕ) : Buffer α :=
  -- load real and imaginary parts of signal and filter
  let sigr := load signal i
  let sigi := load signal (i + 4)
  let filtr := load filter i
  let filti := load filter (i + 4)
  let res1 := sigr * filtr - sigi * filti
  let res2 := sigr * filti + sigi * filtr
  let acc1 := load output i + res1
  let acc2 := load output (i + 4) + res2
  store (store output i acc1) (i + 4) acc2

/-- `_multiply_partition_simd` -/
def multiplyPartitionSimd (partitionSize : ℕ) (output signal filter : Buffer α) : Buffer α :=
  let dc := output 0 + signal 0 * filter 0
  let ny := output 4 + signal 4 * filter 4
  let output := (groups partitionSize).foldl (multiplyGroupSimd signal filter) output
  fun n => if n = 0 then dc else if n = 4 then ny else output n

end

/-! ## Output -/

section
variable [Field α]

/-- `_multiply_partition_cpp` and `_multiply_partition_simd`. Each pass of their loops changes eight
elements; the elements 0 and 4 are real and are replaced after the loop. -/
def multiplyPartition (output signal filter : Buffer α) : Buffer α :=
  let d1s := output 0 + signal 0 * filter 0
  let d2s := output 4 + signal 4 * filter 4
  fun n =>
    if n = 0 then d1s
    else if n = 4 then d2s
    -- real parts
    else if n % 8 < 4 then output n + (signal n * filter n - signal (n + 4) * filter (n + 4))
    -- imaginary parts
    else output n + (signal (n - 4) * filter n + signal n * filter (n - 4))

/-- The loop of `_multiply_spectra` over the filter partitions; the list of the spectra begins at
the iterator `input`, which stays where it is if one of the two is zero. -/
def multiplySpectra : List (FftNode α) → List (FftNode α) → FftNode α → FftNode α
  | input :: inputs, filter :: filters, output =>
    if input.zero || filter.zero then multiplySpectra (input :: inputs) filters output
    else
      multiplySpectra inputs filters
        { data := multiplyPartition output.data input.data filter.data, zero := false }
  | _, _, output => output

/-- `convolve`: the second half of the output buffer. -/
def convolve (fftw : Fftw α) (input : Input α) (filterPtrs : List (FftNode α)) (weight : α) :
    Buffer α :=
  let blockSize := input.blockSize
  let output := multiplySpectra input.spectra filterPtrs .new
  if output.zero then fun i => output.data (blockSize + i)
  else
    let data := fftw.hc2r (2 * blockSize) (unsortCoefficients blockSize output.data)
    let norm := weight / ((2 * blockSize : ℕ) : α)
    fun i => data (blockSize + i) * norm

end

/-- `_set_filter` of `StaticOutput`: missing partitions are empty, further ones are ignored. -/
def setFilter [Zero α] (input : Input α) (filter : List (FftNode α)) : List (FftNode α) :=
  filter.take input.partitions ++ List.replicate (input.partitions - filter.length) .new

/-- The constructor of `StaticOutput` from time-domain samples. -/
def staticOutput [Zero α] (fftw : Fftw α) (input : Input α) (coefficients : List α) :
    List (FftNode α) :=
  setFilter input (filter fftw input.blockSize coefficients input.partitions)

end Apf.Conv
