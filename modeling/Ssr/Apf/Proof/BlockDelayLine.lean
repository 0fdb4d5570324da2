import Ssr.Apf.BlockDelayLine
import Ssr.Lib.Circular
import Mathlib.Data.List.GetD
import Mathlib.Data.List.Induction

/-!
# What the delay lines read

The sample `s` of the stream of written blocks is in the slot of `s + blockSize`, as the first block
is written one block after the beginning of the ring. A ring keeps the last `size` samples
(`Holds`), so what is read is right up to a delay of `size - blockSize`. The constructor makes the
ring large enough for `maxDelay`, unless the computation of the number of blocks overflows.
-/

set_option autoImplicit false

namespace Apf

open Lib Circular

variable {T : Type} [Inhabited T]

/-- The sample `s` of a stream of blocks, with silence before the first one. -/
def sampleAt (blockSize : ℕ) (blocks : List (ℕ → T)) (s : ℤ) : T :=
  if s < 0 then default
  else (blocks.getD (s.toNat / blockSize) fun _ => default) (s.toNat % blockSize)

/-- A block of samples that begins anywhere. -/
def samplesAt (blockSize : ℕ) (blocks : List (ℕ → T)) (start : ℤ) : List T :=
  (List.range blockSize).map fun i : ℕ => sampleAt blockSize blocks (start + i)

/-- Whatever has been written, `read_block` succeeds exactly for the valid delays, and then reads
the samples that begin `delay` samples before the block that has been written last. -/
def BlockDelayLine.ReadsRight (l : BlockDelayLine T) : Prop :=
  ∀ (blocks : List (ℕ → T)) (delay : ℕ), delay < 2 ^ 64 →
    let l' := blocks.foldl writeBlock l
    (l'.readBlock delay).isSome = l'.delayIsValid delay ∧
      ∀ out, l'.readBlock delay = some out →
        out = samplesAt l.blockSize blocks ((blocks.length - 1) * l.blockSize - delay)

/-- The same with a delay of `initialDelay` in addition. -/
def NonCausalBlockDelayLine.ReadsRight (l : NonCausalBlockDelayLine T) (initialDelay : ℕ) : Prop :=
  ∀ (blocks : List (ℕ → T)) (delay : ℤ), -2 ^ 63 ≤ delay → delay < 2 ^ 63 →
    let l' := blocks.foldl writeBlock l
    (l'.readBlock delay).isSome = l'.delayIsValid delay ∧
      ∀ out, l'.readBlock delay = some out → out = samplesAt l.blockSize blocks
        ((blocks.length - 1) * l.blockSize - initialDelay - delay)

/-! ## Streams -/

section
variable {b : ℕ} {blocks : List (ℕ → T)}

theorem sampleAt_of_neg {s : ℤ} (h : s < 0) : sampleAt b blocks s = default := if_pos h

theorem sampleAt_newest (x : ℕ → T) {i : ℕ} (hi : i < b) :
    sampleAt b (blocks ++ [x]) (blocks.length * b + i) = x i := by
  have hb : 0 < b := by omega
  rw [sampleAt, ← Int.natCast_mul, ← Int.natCast_add, if_neg (by omega), Int.toNat_natCast,
    Nat.add_comm, Nat.add_mul_div_right i _ hb, Nat.div_eq_of_lt hi, Nat.zero_add,
    Nat.add_mul_mod_self_right, Nat.mod_eq_of_lt hi]
  simp

theorem sampleAt_concat (x : ℕ → T) {s : ℤ} (h : s < blocks.length * b) :
    sampleAt b (blocks ++ [x]) s = sampleAt b blocks s := by
  unfold sampleAt
  split
  · rfl
  · have hlt : s.toNat / b < blocks.length := by
      refine Nat.div_lt_of_lt_mul ?_
      rw [Nat.mul_comm, ← Int.ofNat_lt]
      push_cast
      omega
    rw [List.getD_append _ _ _ _ hlt]

end

/-! ## Circular iterators -/

section
variable {size : ℕ}

theorem circularAdd_lt (h : 0 < size) (index : ℕ) (n : ℤ) : circularAdd size index n < size := by
  rw [circularAdd, wrap_eq (by omega)]
  exact slot_lt h _

theorem circularAdd_slot (h : 0 < size) (hsize : size ≤ 2 ^ 62) (j : ℤ) {n : ℤ}
    (hle : -2 ^ 62 ≤ n) (hlt : n ≤ 2 ^ 62) :
    circularAdd size (slot size j) n = slot size (j + n) := by
  have hj := slot_lt h j
  rw [circularAdd, toDifference_eq (by omega) (by omega), wrap_eq (by omega)]
  exact slot_add h j n

theorem circularNext_slot (h : 1 < size) (j : ℤ) :
    circularNext size (slot size j) = slot size (j + 1) := by
  have hj := slot_lt (by omega : 0 < size) j
  have hadd := slot_add_of_lt h j
  rw [Int.natCast_one] at hadd
  rw [hadd, circularNext]
  split <;> split <;> omega

theorem circularDistance_slot {n : ℕ} (h : n < size) (j : ℤ) :
    circularDistance size (slot size (j + n)) (slot size j) = n := by
  have hj := slot_lt (by omega : 0 < size) j
  rw [slot_add_of_lt h, circularDistance]
  split <;> split <;> omega

end

/-! ## The ring -/

namespace BlockDelayLine

attribute [local irreducible] circularAdd

/-- The ring consists of at least two blocks. -/
structure Shape (l : BlockDelayLine T) : Prop where
  pos : 0 < l.blockSize
  two : 2 * l.blockSize ≤ l.size
  dvd : l.blockSize ∣ l.size
  size : l.size ≤ 2 ^ 62

/-- The state after the `blocks` have been written. -/
structure Holds (l : BlockDelayLine T) (blocks : List (ℕ → T)) : Prop where
  dataCirculator : l.dataCirculator = slot l.size (blocks.length * l.blockSize)
  blockCirculator : l.blockCirculator = slot l.size (blocks.length * l.blockSize)
  data : ∀ s : ℤ, blocks.length * l.blockSize - l.size ≤ s → s < blocks.length * l.blockSize →
    l.data (slot l.size (s + l.blockSize)) = sampleAt l.blockSize blocks s

variable {l : BlockDelayLine T} {blocks : List (ℕ → T)}

omit [Inhabited T] in
theorem Shape.size_pos (h : l.Shape) : 0 < l.size := by
  have := h.pos
  have := h.two
  omega

omit [Inhabited T] in
/-- A block begins at a multiple of the block size and does not go across the end of the ring. -/
theorem Shape.block_le (h : l.Shape) (n : ℕ) :
    slot l.size (n * l.blockSize) + l.blockSize ≤ l.size := by
  have hlt := slot_lt h.size_pos (n * l.blockSize)
  have hdvd : l.blockSize ∣ slot l.size (n * l.blockSize) := by
    rw [slot, ← Int.natCast_mul, ← Int.natCast_emod, Int.toNat_natCast]
    exact (Nat.dvd_mod_iff h.dvd).2 (Nat.dvd_mul_left l.blockSize n)
  obtain ⟨k, hk⟩ := hdvd
  obtain ⟨m, hm⟩ := h.dvd
  rw [hk, hm] at hlt ⊢
  have hkm : k < m := Nat.lt_of_mul_lt_mul_left hlt
  calc l.blockSize * k + l.blockSize = l.blockSize * (k + 1) := (Nat.mul_succ _ k).symm
    _ ≤ l.blockSize * m := Nat.mul_le_mul_left _ hkm

section
omit [Inhabited T]
variable (l) (x : ℕ → T)

theorem writeBlock_blockSize : (l.writeBlock x).blockSize = l.blockSize := by
  cases l
  rfl

theorem writeBlock_maxDelay : (l.writeBlock x).maxDelay = l.maxDelay := by
  cases l
  rfl

theorem writeBlock_size : (l.writeBlock x).size = l.size := by
  cases l
  rfl

theorem writeBlock_dataCirculator : (l.writeBlock x).dataCirculator =
    circularAdd l.size l.dataCirculator (toDifference l.blockSize) := by
  cases l
  rfl

theorem writeBlock_blockCirculator : (l.writeBlock x).blockCirculator =
    circularAdd l.size l.blockCirculator (toDifference l.blockSize) := by
  cases l
  rfl

theorem writeBlock_data (j : ℕ) : (l.writeBlock x).data j =
    if (l.writeBlock x).blockCirculator ≤ j ∧
      j < (l.writeBlock x).blockCirculator + l.blockSize then
      x (j - (l.writeBlock x).blockCirculator)
    else l.data j := by
  cases l
  rfl

end

omit [Inhabited T] in
theorem Shape.writeBlock (h : l.Shape) (x : ℕ → T) : (l.writeBlock x).Shape := by
  obtain ⟨hpos, htwo, hdvd, hsize⟩ := h
  rw [← writeBlock_blockSize l x] at hpos htwo hdvd
  rw [← writeBlock_size l x] at htwo hdvd hsize
  exact ⟨hpos, htwo, hdvd, hsize⟩

/-- **One block** is written over the oldest samples. -/
theorem Holds.writeBlock (hshape : l.Shape) (h : l.Holds blocks) (x : ℕ → T) :
    (l.writeBlock x).Holds (blocks ++ [x]) := by
  have hpos := hshape.size_pos
  have hsize := hshape.size
  have htwo := hshape.two
  have hlength : ((blocks ++ [x]).length : ℤ) * l.blockSize =
      blocks.length * l.blockSize + l.blockSize := by
    rw [List.length_append, List.length_singleton, Int.natCast_add, Int.natCast_one, Int.add_mul,
      Int.one_mul]
  have hadvance : circularAdd l.size (slot l.size (blocks.length * l.blockSize))
      (toDifference l.blockSize) = slot l.size ((blocks ++ [x]).length * l.blockSize) := by
    rw [toDifference_eq (by omega) (by omega), circularAdd_slot hpos hsize _ (by omega) (by omega),
      hlength]
  have hblock : (l.writeBlock x).blockCirculator =
      slot l.size (blocks.length * l.blockSize + l.blockSize) := by
    rw [writeBlock_blockCirculator, h.blockCirculator, hadvance, hlength]
  refine ⟨?_, ?_, fun s hle hlt => ?_⟩
  · rw [writeBlock_dataCirculator, h.dataCirculator, writeBlock_size, writeBlock_blockSize,
      hadvance]
  · rw [hblock, writeBlock_size, writeBlock_blockSize, hlength]
  · rw [writeBlock_blockSize, writeBlock_size, hlength] at hle
    rw [writeBlock_blockSize, hlength] at hlt
    rw [writeBlock_data, hblock, writeBlock_size, writeBlock_blockSize]
    have hfits :
        slot l.size (blocks.length * l.blockSize + l.blockSize) + l.blockSize ≤ l.size := by
      rw [← hlength]
      exact hshape.block_le _
    have hslot : ∀ i < l.blockSize,
        slot l.size (blocks.length * l.blockSize + l.blockSize + (i : ℕ)) =
          slot l.size (blocks.length * l.blockSize + l.blockSize) + i := by
      intro i hi
      rw [slot_add_of_lt (by omega), if_pos (by omega)]
    by_cases hold : s < blocks.length * l.blockSize
    · rw [if_neg, h.data s (by omega) hold, sampleAt_concat x hold]
      -- the block is written over samples that are older
      rintro ⟨hge, hin⟩
      obtain ⟨i, hi⟩ := Nat.exists_eq_add_of_le hge
      rw [hi, Nat.add_lt_add_iff_left] at hin
      rw [← hslot i hin] at hi
      have := eq_of_slot_eq hpos hi (by omega) (by omega)
      omega
    · obtain ⟨i, rfl⟩ : ∃ i : ℕ, s = blocks.length * l.blockSize + i :=
        ⟨(s - blocks.length * l.blockSize).toNat, by omega⟩
      have hi : i < l.blockSize := by omega
      rw [Int.add_right_comm, hslot i hi, if_pos (by omega), Nat.add_sub_cancel_left,
        sampleAt_newest x hi]

/-- **All blocks.** -/
theorem written (hshape : l.Shape) (hnew : l.Holds []) (blocks : List (ℕ → T)) :
    let l' := blocks.foldl BlockDelayLine.writeBlock l
    l'.Shape ∧ l'.Holds blocks ∧ l'.blockSize = l.blockSize ∧ l'.maxDelay = l.maxDelay ∧
      l'.size = l.size := by
  induction blocks using List.reverseRecOn with
  | nil => exact ⟨hshape, hnew, rfl, rfl, rfl⟩
  | append_singleton blocks x ih =>
    rw [List.foldl_append, List.foldl_cons, List.foldl_nil]
    obtain ⟨hshape', hholds, hblockSize, hmaxDelay, hsize⟩ := ih
    exact ⟨hshape'.writeBlock x, hholds.writeBlock hshape' x,
      (writeBlock_blockSize _ x).trans hblockSize, (writeBlock_maxDelay _ x).trans hmaxDelay,
      (writeBlock_size _ x).trans hsize⟩

/-! ## Reading -/

omit [Inhabited T] in
theorem copy_slot (h : 1 < l.size) (n : ℕ) (j : ℤ) :
    l.copy n (slot l.size j) =
      (List.range n).map fun i : ℕ => l.data (slot l.size (j + i)) := by
  induction n generalizing j with
  | zero => rfl
  | succ n ih =>
    rw [copy, circularNext_slot h, ih, List.range_succ_eq_map, List.map_cons, List.map_map,
      Int.natCast_zero, Int.add_zero]
    congr 1
    refine List.map_congr_left fun i _ => ?_
    rw [Function.comp, Int.natCast_succ, Int.add_assoc, Int.add_comm 1]

/-- What is read, wherever it comes from. -/
theorem Holds.readBlock (hshape : l.Shape) (h : l.Holds blocks) {delay : ℕ}
    (hvalid : delay ≤ l.maxDelay) (hdelay : delay ≤ 2 ^ 62) :
    l.readBlock delay = some ((List.range l.blockSize).map fun i : ℕ =>
      l.data (slot l.size (blocks.length * l.blockSize - delay + i))) := by
  have hpos := hshape.size_pos
  have hsize := hshape.size
  have htwo := hshape.two
  have hblock := hshape.pos
  have hsource : l.getReadCirculator delay =
      slot l.size (blocks.length * l.blockSize - delay) := by
    rw [getReadCirculator, toDifference_eq (x := delay) (by omega) (by omega),
      toDifference_eq (by omega) (by omega), h.dataCirculator,
      circularAdd_slot hpos hsize _ (by omega) (by omega), Int.sub_eq_add_neg]
  have hcount : circularDistance l.size (circularAdd l.size (l.getReadCirculator delay)
      (toDifference l.blockSize)) (l.getReadCirculator delay) = l.blockSize := by
    rw [hsource, toDifference_eq (by omega) (by omega),
      circularAdd_slot hpos hsize _ (by omega) (by omega), circularDistance_slot (by omega)]
  have hdelayIsValid : (!l.delayIsValid delay) = false := by simp [delayIsValid, hvalid]
  rw [BlockDelayLine.readBlock, hdelayIsValid, if_neg Bool.false_ne_true]
  simp only [hcount]
  rw [hsource, copy_slot (by omega)]

/-- **What is read is right** if the ring is large enough for the delay. -/
theorem Holds.readBlock_eq (hshape : l.Shape) (h : l.Holds blocks) {delay : ℕ}
    (hvalid : delay ≤ l.maxDelay) (hdelay : delay + l.blockSize ≤ l.size) :
    l.readBlock delay =
      some (samplesAt l.blockSize blocks ((blocks.length - 1) * l.blockSize - delay)) := by
  have hsize := hshape.size
  rw [h.readBlock hshape hvalid (by omega), samplesAt]
  congr 1
  refine List.map_congr_left fun i hi => ?_
  rw [List.mem_range] at hi
  rw [Int.sub_mul, Int.one_mul, ← h.data _ (by omega) (by omega)]
  congr 2
  omega

/-- A delay of the size of the ring gives the newest block. -/
theorem Holds.readBlock_size (hshape : l.Shape) (h : l.Holds blocks)
    (hvalid : l.size ≤ l.maxDelay) : l.readBlock l.size =
      some (samplesAt l.blockSize blocks ((blocks.length - 1) * l.blockSize)) := by
  have htwo := hshape.two
  rw [h.readBlock hshape hvalid hshape.size, samplesAt]
  congr 1
  refine List.map_congr_left fun i hi => ?_
  rw [List.mem_range] at hi
  rw [Int.sub_mul, Int.one_mul, ← h.data _ (by omega) (by omega), ← slot_add_size]
  congr 2
  omega

/-! ## The constructor -/

variable {maxSize blockSize maxDelay : ℕ}

theorem numberOfBlocks_eq (hpos : 0 < blockSize) : numberOfBlocks blockSize maxDelay =
    max 2 ((maxDelay + 2 * blockSize - 1) % 2 ^ 64 / blockSize) := by
  rw [numberOfBlocks, show sub64 (add64 maxDelay (mul64 2 blockSize)) 1 =
    (maxDelay + 2 * blockSize - 1) % 2 ^ 64 by unfold sub64 add64 mul64 word; omega]

theorem new_cases (h : new maxSize blockSize maxDelay = some l) :
    0 < blockSize ∧ l.size = mul64 (numberOfBlocks blockSize maxDelay) blockSize ∧
      0 < l.size ∧ l.size ≤ maxSize ∧ l.blockSize = blockSize ∧ l.maxDelay = maxDelay ∧
      l.Holds [] := by
  unfold new at h
  dsimp only at h
  split at h
  · cases h
  split at h
  · cases h
  split at h
  · cases h
  · rename_i hblock hmax hsize
    have hpos : 0 < mul64 (numberOfBlocks blockSize maxDelay) blockSize := by omega
    cases h
    refine ⟨by omega, rfl, hpos, Nat.le_of_not_lt hmax, rfl, rfl, ?_, ?_, fun s _ hlt => ?_⟩
    · simp [slot]
    · simp [slot]
    · exact (sampleAt_of_neg (by simpa using hlt)).symm

/-- The ring is large enough for `maxDelay` if nothing overflows, and too small otherwise. -/
theorem new_spec (hmax : maxSize ≤ 2 ^ 62) (hblock : blockSize < 2 ^ 63)
    (h : new maxSize blockSize maxDelay = some l) :
    l.Shape ∧ (maxDelay + 2 * blockSize - 1 < 2 ^ 64 → maxDelay + blockSize ≤ l.size) ∧
      (2 ^ 64 ≤ maxDelay + 2 * blockSize - 1 → l.size ≤ maxDelay) := by
  obtain ⟨hpos, hsize, -, hle, hblockSize, -, -⟩ := new_cases h
  rw [numberOfBlocks_eq hpos] at hsize
  generalize hm : (maxDelay + 2 * blockSize - 1) % 2 ^ 64 = m at hsize
  have hlt : m < 2 ^ 64 := by omega
  have hdiv := Nat.div_mul_le_self m blockSize
  have hmod := Nat.lt_div_mul_add (a := m) hpos
  have htwo : 2 * blockSize ≤ max 2 (m / blockSize) * blockSize :=
    Nat.mul_le_mul_right _ (Nat.le_max_left _ _)
  have hcount : m / blockSize * blockSize ≤ max 2 (m / blockSize) * blockSize :=
    Nat.mul_le_mul_right _ (Nat.le_max_right _ _)
  have hfits : max 2 (m / blockSize) * blockSize < 2 ^ 64 := by
    rcases Nat.le_total (m / blockSize) 2 with htwo' | hcount'
    · rw [Nat.max_eq_left htwo']
      omega
    · rw [Nat.max_eq_right hcount']
      omega
  rw [mul64, word, Nat.mod_eq_of_lt hfits] at hsize
  refine ⟨⟨?_, ?_, ?_, by omega⟩, fun _ => by omega, fun _ => by omega⟩
  · rw [hblockSize]
    exact hpos
  · rw [hblockSize, hsize]
    exact htwo
  · rw [hblockSize, hsize]
    exact Nat.dvd_mul_left _ _

omit [Inhabited T] in
theorem length_copy (n index : ℕ) : (l.copy n index).length = n := by
  induction n generalizing index with
  | zero => rfl
  | succ n ih => rw [copy, List.length_cons, ih]

omit [Inhabited T] in
/-- Less than a whole ring is read. -/
theorem length_readBlock (hsize : 0 < l.size) {delay : ℕ} {out : List T}
    (h : l.readBlock delay = some out) : out.length < l.size := by
  unfold readBlock at h
  split at h
  · cases h
  · have hout := congrArg List.length (Option.some.inj h)
    rw [length_copy] at hout
    rw [← hout, circularDistance]
    have hsource : l.getReadCirculator delay < l.size := circularAdd_lt hsize _ _
    have hlast := circularAdd_lt hsize (l.getReadCirculator delay) (toDifference l.blockSize)
    split <;> omega

theorem samplesAt_ne {a : T} (ha : a ≠ default) (hpos : 0 < blockSize) {j : ℤ} (hj : j < 0) :
    samplesAt blockSize [fun _ => a] 0 ≠ samplesAt blockSize [fun _ => a] j := by
  intro heq
  have hfirst := congrArg (·[0]?) heq
  simp only [samplesAt, List.getElem?_map, List.getElem?_range hpos, Option.map_some,
    Option.some.injEq] at hfirst
  have hsilent : sampleAt blockSize [fun _ => a] (j + (0 : ℕ)) = default :=
    sampleAt_of_neg (by omega)
  rw [hsilent] at hfirst
  exact ha (by simpa [sampleAt] using hfirst)

theorem length_samplesAt (blocks : List (ℕ → T)) (j : ℤ) :
    (samplesAt blockSize blocks j).length = blockSize := by
  rw [samplesAt, List.length_map, List.length_range]

/-- A huge block cannot be read as a whole. -/
theorem readBlock_of_large (hmax : maxSize ≤ 2 ^ 62) (hblock : 2 ^ 63 ≤ blockSize)
    (h : new maxSize blockSize maxDelay = some l) :
    ∃ out, l.readBlock 0 = some out ∧ out.length < l.blockSize := by
  obtain ⟨-, -, hsize, hle, hblockSize, -, -⟩ := new_cases h
  obtain ⟨out, hout⟩ : ∃ out, l.readBlock 0 = some out := by simp [readBlock, delayIsValid]
  have hlength := length_readBlock hsize hout
  exact ⟨out, hout, by omega⟩

theorem not_readsRight_of_large (hmax : maxSize ≤ 2 ^ 62) (hblock : 2 ^ 63 ≤ blockSize)
    (h : new maxSize blockSize maxDelay = some l) : ¬ l.ReadsRight := by
  intro hright
  obtain ⟨out, hread, hlength⟩ := readBlock_of_large hmax hblock h
  rw [(hright [] 0 (by omega)).2 out hread, length_samplesAt] at hlength
  exact Nat.lt_irrefl _ hlength

/-- A ring that is large enough for `maxDelay` is read in the right place. -/
theorem readBlock_of_fits (hshape : l.Shape) (hnew : l.Holds [])
    (hfits : l.maxDelay + l.blockSize ≤ l.size) (blocks : List (ℕ → T)) (delay : ℕ) :
    (blocks.foldl BlockDelayLine.writeBlock l).readBlock delay =
      if delay ≤ l.maxDelay then
        some (samplesAt l.blockSize blocks ((blocks.length - 1) * l.blockSize - delay))
      else none := by
  obtain ⟨hshape', hholds, hblockSize, hmaxDelay, hsize⟩ := written hshape hnew blocks
  split
  · rename_i hvalid
    rw [hholds.readBlock_eq hshape' (hmaxDelay ▸ hvalid) (by omega), hblockSize]
  · rename_i hvalid
    simp [BlockDelayLine.readBlock, delayIsValid, hmaxDelay, hvalid]

/-- Without a delay the newest block is read, whatever the size of the ring. -/
theorem readBlock_written_zero (hshape : l.Shape) (hnew : l.Holds []) (x : ℕ → T) :
    ([x].foldl BlockDelayLine.writeBlock l).readBlock 0 = some (samplesAt l.blockSize [x] 0) := by
  obtain ⟨hshape', hholds, hblockSize, -, hsize⟩ := written hshape hnew [x]
  have htwo := hshape.two
  rw [hholds.readBlock_eq hshape' (Nat.zero_le _) (by omega), hblockSize]
  simp

/-- With a delay of the size of the ring it is read, too. -/
theorem readBlock_written_size (hshape : l.Shape) (hnew : l.Holds []) (hvalid : l.size ≤ l.maxDelay)
    (x : ℕ → T) :
    ([x].foldl BlockDelayLine.writeBlock l).readBlock l.size =
      some (samplesAt l.blockSize [x] 0) := by
  obtain ⟨hshape', hholds, hblockSize, hmaxDelay, hsize⟩ := written hshape hnew [x]
  have hread := hholds.readBlock_size hshape' (by omega)
  rw [hsize, hblockSize] at hread
  rw [hread]
  simp

/-- **The condition** for `BlockDelayLine`. -/
theorem readsRight_iff (hmax : maxSize ≤ 2 ^ 62) {a : T} (ha : a ≠ default)
    (h : new maxSize blockSize maxDelay = some l) :
    l.ReadsRight ↔ maxDelay + 2 * blockSize - 1 < 2 ^ 64 := by
  obtain ⟨hpos, hsize, hne, hle, hblockSize, hmaxDelay, hnew⟩ := new_cases h
  rcases Nat.lt_or_ge blockSize (2 ^ 63) with hblock | hlarge
  · obtain ⟨hshape, hfits, hsmall⟩ := new_spec hmax hblock h
    constructor
    · intro hright
      by_contra hover
      have hvalid := hsmall (by omega)
      have hread := readBlock_written_size hshape hnew (by omega) fun _ => a
      have hout := (hright [fun _ => a] l.size (by omega)).2 _ hread
      refine samplesAt_ne ha (hblockSize ▸ hpos) (j := -l.size) (by omega) ?_
      simpa using hout
    · intro hcond blocks delay _ l'
      have hread : l'.readBlock delay = _ :=
        readBlock_of_fits hshape hnew (by have := hfits hcond; omega) blocks delay
      have hvalid : l'.delayIsValid delay = decide (delay ≤ l.maxDelay) := by
        rw [delayIsValid, (written hshape hnew blocks).2.2.2.1]
      rw [hread, hvalid]
      split
      · rename_i hle
        exact ⟨(decide_eq_true hle).symm, fun out hout => (Option.some.inj hout).symm⟩
      · rename_i hgt
        exact ⟨(decide_eq_false hgt).symm, fun out hout => by cases hout⟩
  · refine iff_of_false (not_readsRight_of_large hmax hlarge h) fun hcond => ?_
    -- twice the block size overflows
    obtain ⟨rfl, rfl⟩ : blockSize = 2 ^ 63 ∧ maxDelay = 0 := by omega
    rw [hsize] at hne
    revert hne
    decide

end BlockDelayLine

/-! ## The non-causal delay line -/

namespace NonCausalBlockDelayLine

attribute [local irreducible] circularAdd toDifference

variable {l : NonCausalBlockDelayLine T} {maxSize blockSize maxDelay initialDelay : ℕ}

omit [Inhabited T] in
theorem foldl_writeBlock (l : NonCausalBlockDelayLine T) (blocks : List (ℕ → T)) :
    (blocks.foldl writeBlock l).toBlockDelayLine =
        blocks.foldl BlockDelayLine.writeBlock l.toBlockDelayLine ∧
      (blocks.foldl writeBlock l).initialDelay = l.initialDelay := by
  induction blocks generalizing l with
  | nil => exact ⟨rfl, rfl⟩
  | cons x blocks ih =>
    have hbase : (l.writeBlock x).toBlockDelayLine = l.toBlockDelayLine.writeBlock x := by
      cases l
      rfl
    have hinitial : (l.writeBlock x).initialDelay = l.initialDelay := by
      cases l
      rfl
    rw [List.foldl_cons, List.foldl_cons, ← hbase, ← hinitial]
    exact ih (l.writeBlock x)

/-- The least valid delay: the opposite of the initial delay, if that has not been converted to a
negative number. -/
def leastDelay (initialDelay : ℕ) : ℤ :=
  if initialDelay ≤ 2 ^ 63 then -initialDelay else 2 ^ 64 - initialDelay

theorem toDifference_neg (h : initialDelay < 2 ^ 64) :
    toDifference (-toDifference initialDelay) = leastDelay initialDelay := by
  unfold toDifference leastDelay word
  rw [Int.bmod_eq_emod, Int.bmod_eq_emod]
  split <;> split <;> split <;> omega

/-- How far the delay is from the least valid one. -/
theorem toSize_delay (h : initialDelay < 2 ^ 64) {delay : ℤ}
    (hle : leastDelay initialDelay ≤ delay) (hlt : delay < 2 ^ 63) :
    (toSize (delay + toDifference initialDelay) : ℤ) = delay - leastDelay initialDelay := by
  have hdifference : (delay + toDifference initialDelay) % 2 ^ 64 =
      (delay - leastDelay initialDelay) % 2 ^ 64 := by
    unfold toDifference leastDelay word
    rw [Int.bmod_eq_emod]
    split <;> split <;> omega
  have hnonneg : 0 ≤ delay - leastDelay initialDelay := by omega
  have hlt' : delay - leastDelay initialDelay < 2 ^ 64 := by
    unfold leastDelay
    split <;> omega
  rw [toSize, Int.toNat_of_nonneg (Int.emod_nonneg _ (by decide))]
  exact hdifference.trans (Int.emod_eq_of_lt hnonneg hlt')

theorem new_cases (h : new maxSize blockSize maxDelay initialDelay = some l) :
    BlockDelayLine.new maxSize blockSize (add64 maxDelay initialDelay) =
        some l.toBlockDelayLine ∧
      l.initialDelay = toDifference initialDelay := by
  obtain ⟨base, hbase, rfl⟩ := Option.map_eq_some_iff.1 h
  exact ⟨hbase, rfl⟩

section
omit [Inhabited T]
variable (hinitial : initialDelay < 2 ^ 64) (hl : l.initialDelay = toDifference initialDelay)
  {delay : ℤ}
include hinitial hl

theorem readBlock_eq (hlt : delay < 2 ^ 63) (hle : leastDelay initialDelay ≤ delay) {n : ℕ}
    (hn : delay = leastDelay initialDelay + n) :
    l.readBlock delay = l.toBlockDelayLine.readBlock n := by
  have hsize := toSize_delay hinitial hle hlt
  rw [readBlock, hl, toDifference_neg hinitial, if_neg (by omega)]
  congr 1
  omega

theorem readBlock_eq_none (hgt : delay < leastDelay initialDelay) : l.readBlock delay = none := by
  rw [readBlock, hl, toDifference_neg hinitial, if_pos hgt]

theorem delayIsValid_eq_false (hgt : delay < leastDelay initialDelay) :
    l.delayIsValid delay = false := by
  rw [delayIsValid, hl, toDifference_neg hinitial, if_pos hgt]

/-- A negative delay is taken for valid without looking at `maxDelay`. -/
theorem delayIsValid_of_neg (hle : leastDelay initialDelay ≤ delay) (hneg : delay < 0) :
    l.delayIsValid delay = true := by
  rw [delayIsValid, hl, toDifference_neg hinitial, if_neg (by omega), if_pos hneg]

theorem delayIsValid_of_nonneg (hlt : delay < 2 ^ 63) (hle : leastDelay initialDelay ≤ delay)
    (hnonneg : 0 ≤ delay) {n : ℕ} (hn : delay = leastDelay initialDelay + n) :
    l.delayIsValid delay = decide (n ≤ l.maxDelay) := by
  have hsize := toSize_delay hinitial hle hlt
  rw [delayIsValid, hl, toDifference_neg hinitial, if_neg (by omega), if_neg (by omega)]
  unfold BlockDelayLine.delayIsValid
  congr 2
  omega

end

omit [Inhabited T] in
/-- What is read after the blocks have been written. -/
theorem readBlock_written (hinitial : initialDelay < 2 ^ 64)
    (hl : l.initialDelay = toDifference initialDelay) (blocks : List (ℕ → T)) {delay : ℤ} {n : ℕ}
    (hlt : delay < 2 ^ 63) (hn : delay = leastDelay initialDelay + n) :
    (blocks.foldl writeBlock l).readBlock delay =
      (blocks.foldl BlockDelayLine.writeBlock l.toBlockDelayLine).readBlock n := by
  obtain ⟨hbase, hinitial'⟩ := foldl_writeBlock l blocks
  rw [readBlock_eq hinitial (hinitial'.trans hl) hlt (by omega) hn, hbase]

/-- The newest block is read with a delay. -/
theorem not_readsRight (hinitial : initialDelay < 2 ^ 64)
    (hl : l.initialDelay = toDifference initialDelay) {a : T} (ha : a ≠ default)
    (hpos : 0 < l.blockSize) {delay : ℤ} {n : ℕ} (hle : -2 ^ 63 ≤ delay) (hlt : delay < 2 ^ 63)
    (hn : delay = leastDelay initialDelay + n) (hlate : 0 < initialDelay + delay)
    (hread : ([fun _ => a].foldl BlockDelayLine.writeBlock l.toBlockDelayLine).readBlock n =
      some (samplesAt l.blockSize [fun _ => a] 0)) : ¬ l.ReadsRight initialDelay := by
  intro hright
  rw [← readBlock_written hinitial hl [fun _ => a] hlt hn] at hread
  have hout := (hright [fun _ => a] delay hle hlt).2 _ hread
  refine BlockDelayLine.samplesAt_ne ha hpos (j := -initialDelay - delay) (by omega) ?_
  simpa using hout

theorem leastDelay_range (h : initialDelay < 2 ^ 64) :
    -2 ^ 63 ≤ leastDelay initialDelay ∧ leastDelay initialDelay < 2 ^ 63 := by
  unfold leastDelay
  split <;> omega

theorem not_readsRight_of_large (hmax : maxSize ≤ 2 ^ 62) (hblock : 2 ^ 63 ≤ blockSize)
    (hinitial : initialDelay < 2 ^ 64)
    (h : new maxSize blockSize maxDelay initialDelay = some l) : ¬ l.ReadsRight initialDelay := by
  intro hright
  obtain ⟨hbase, hl⟩ := new_cases h
  obtain ⟨hge, hlt⟩ := leastDelay_range hinitial
  obtain ⟨out, hout, hlength⟩ := BlockDelayLine.readBlock_of_large hmax hblock hbase
  have hread := readBlock_written hinitial hl ([] : List (ℕ → T)) hlt (Int.add_zero _).symm
  rw [(hright [] _ hge hlt).2 out (hread.trans hout), BlockDelayLine.length_samplesAt] at hlength
  exact Nat.lt_irrefl _ hlength

/-- A negative delay is valid, but it cannot be read. -/
theorem not_readsRight_of_negative (hinitial : initialDelay < 2 ^ 64)
    (hl : l.initialDelay = toDifference initialDelay)
    (hleast : leastDelay initialDelay = -initialDelay)
    (hbad : l.maxDelay + 1 < initialDelay) : ¬ l.ReadsRight initialDelay := by
  intro hright
  have hone : (-1 : ℤ) = leastDelay initialDelay + (initialDelay - 1 : ℕ) := by omega
  have hinvalid : l.toBlockDelayLine.delayIsValid (initialDelay - 1) = false :=
    decide_eq_false (by omega)
  have hread : l.readBlock (-1) = none := by
    rw [readBlock_eq hinitial hl (by decide) (by omega) hone, BlockDelayLine.readBlock, hinvalid]
    rfl
  have hsome := (hright [] (-1) (by decide) (by decide)).1
  rw [List.foldl_nil, hread, delayIsValid_of_neg hinitial hl (by omega) (by decide)] at hsome
  cases hsome

theorem readsRight_of_fits (hinitial : initialDelay < 2 ^ 64)
    (hl : l.initialDelay = toDifference initialDelay) (hshape : l.toBlockDelayLine.Shape)
    (hnew : l.toBlockDelayLine.Holds []) (hleast : leastDelay initialDelay = -initialDelay)
    (hnegative : initialDelay ≤ l.maxDelay + 1) (hfits : l.maxDelay + l.blockSize ≤ l.size) :
    l.ReadsRight initialDelay := by
  intro blocks delay _ hlt l'
  have hl' : l'.initialDelay = toDifference initialDelay := (foldl_writeBlock l blocks).2.trans hl
  rcases Int.lt_or_le delay (leastDelay initialDelay) with hgt | hle
  · have hread := readBlock_eq_none hinitial hl' hgt
    refine ⟨?_, fun out hout => ?_⟩
    · rw [hread, delayIsValid_eq_false hinitial hl' hgt]
      rfl
    · rw [hread] at hout
      cases hout
  · obtain ⟨n, hn⟩ : ∃ n : ℕ, delay = leastDelay initialDelay + n :=
      ⟨(delay - leastDelay initialDelay).toNat, by omega⟩
    have hmaxDelay : l'.maxDelay = l.maxDelay := by
      rw [(foldl_writeBlock l blocks).1]
      exact (BlockDelayLine.written hshape hnew blocks).2.2.2.1
    have hread : l'.readBlock delay = _ :=
      (readBlock_written hinitial hl blocks hlt hn).trans
        (BlockDelayLine.readBlock_of_fits hshape hnew hfits blocks n)
    have hvalid : l'.delayIsValid delay = decide (n ≤ l.maxDelay) := by
      rcases Int.lt_or_le delay 0 with hneg | hnonneg
      · rw [delayIsValid_of_neg hinitial hl' hle hneg]
        exact (decide_eq_true (by omega)).symm
      · rw [delayIsValid_of_nonneg hinitial hl' hlt hle hnonneg hn, hmaxDelay]
    rw [hread, hvalid]
    split
    · rename_i hn'
      refine ⟨(decide_eq_true hn').symm, fun out hout => ?_⟩
      rw [← Option.some.inj hout]
      congr 1
      omega
    · rename_i hn'
      exact ⟨(decide_eq_false hn').symm, fun out hout => by cases hout⟩

/-- **The condition** for `NonCausalBlockDelayLine`. -/
theorem readsRight_iff (hmax : maxSize ≤ 2 ^ 62) (hmaxDelay : maxDelay < 2 ^ 64)
    (hinitial : initialDelay < 2 ^ 64) {a : T} (ha : a ≠ default)
    (h : new maxSize blockSize maxDelay initialDelay = some l) :
    l.ReadsRight initialDelay ↔ maxDelay + initialDelay + 2 * blockSize - 1 < 2 ^ 64 ∨
      (maxDelay = 2 ^ 64 - 1 ∧ 0 < initialDelay ∧ initialDelay + 2 * blockSize - 2 < 2 ^ 64) := by
  obtain ⟨hbase, hl⟩ := new_cases h
  obtain ⟨hpos, hsize, hne, hle, hblockSize, hbaseMax, hnew⟩ := BlockDelayLine.new_cases hbase
  have hadd : add64 maxDelay initialDelay = (maxDelay + initialDelay) % 2 ^ 64 := rfl
  rcases Nat.lt_or_ge blockSize (2 ^ 63) with hblock | hlarge
  · obtain ⟨hshape, hfits, hsmall⟩ := BlockDelayLine.new_spec hmax hblock hbase
    rw [hadd] at hfits hsmall hbaseMax
    rcases Nat.lt_or_ge (2 ^ 63) initialDelay with hnegative | hpositive
    -- the initial delay has become a negative number
    · obtain ⟨hge, hlt⟩ := leastDelay_range hinitial
      have hleast : leastDelay initialDelay = 2 ^ 64 - initialDelay := if_neg (by omega)
      have hzero := BlockDelayLine.readBlock_written_zero hshape hnew fun _ => a
      refine iff_of_false (not_readsRight hinitial hl ha (hblockSize ▸ hpos) hge hlt
        (Int.add_zero _).symm (by omega) hzero) ?_
      have := hshape.size
      omega
    · have hleast : leastDelay initialDelay = -initialDelay := if_pos hpositive
      rcases Nat.lt_or_ge ((maxDelay + initialDelay) % 2 ^ 64 + 2 * blockSize - 1) (2 ^ 64) with
        hcond | hover
      · have hfits' := hfits hcond
        rcases Nat.lt_or_ge ((maxDelay + initialDelay) % 2 ^ 64 + 1) initialDelay with hbad | hgood
        · exact iff_of_false (not_readsRight_of_negative hinitial hl hleast (by omega)) (by omega)
        · have hright := readsRight_of_fits hinitial hl hshape hnew hleast (by omega) (by omega)
          exact iff_of_true hright (by omega)
      · have hvalid := hsmall hover
        have hbound := hshape.size
        have hread := BlockDelayLine.readBlock_written_size hshape hnew (by omega) fun _ => a
        have hge : -2 ^ 63 ≤ (l.size - initialDelay : ℤ) := by omega
        exact iff_of_false (not_readsRight hinitial hl ha (hblockSize ▸ hpos) hge (by omega)
          (by omega) (by omega) hread) (by omega)
  · refine iff_of_false (not_readsRight_of_large hmax hlarge hinitial h) fun hcond => ?_
    -- twice the block size overflows
    obtain ⟨rfl, hzero⟩ : blockSize = 2 ^ 63 ∧ add64 maxDelay initialDelay = 0 := by
      rw [hadd]
      omega
    rw [hsize, hzero] at hne
    revert hne
    decide

end NonCausalBlockDelayLine

/-- **Delay lines read the right samples** if and only if the computation of the number of blocks
does not overflow; the non-causal one also if `maxDelay` is as large as possible and only the sum of
the two delays overflows. No container has more than `2 ^ 62` elements. -/
theorem delayLines_readRight_iff {maxSize blockSize maxDelay initialDelay : ℕ}
    (hmax : maxSize ≤ 2 ^ 62) (hmaxDelay : maxDelay < 2 ^ 64) (hinitial : initialDelay < 2 ^ 64)
    {a : T} (ha : a ≠ default) :
    (∀ l : BlockDelayLine T, BlockDelayLine.new maxSize blockSize maxDelay = some l →
      (l.ReadsRight ↔ maxDelay + 2 * blockSize - 1 < 2 ^ 64)) ∧
    ∀ l : NonCausalBlockDelayLine T,
      NonCausalBlockDelayLine.new maxSize blockSize maxDelay initialDelay = some l →
      (l.ReadsRight initialDelay ↔ maxDelay + initialDelay + 2 * blockSize - 1 < 2 ^ 64 ∨
        (maxDelay = 2 ^ 64 - 1 ∧ 0 < initialDelay ∧ initialDelay + 2 * blockSize - 2 < 2 ^ 64)) :=
  ⟨fun _ => BlockDelayLine.readsRight_iff hmax ha,
    fun _ => NonCausalBlockDelayLine.readsRight_iff hmax hmaxDelay hinitial ha⟩

/-- Blocks of three samples and a delay from -1 to 5. -/
theorem delayLines_readRight_iff_three :
    (∃ l : BlockDelayLine ℤ, BlockDelayLine.new (2 ^ 62) 3 5 = some l ∧
      (l.ReadsRight ↔ 5 + 2 * 3 - 1 < 2 ^ 64)) ∧
    ∃ l : NonCausalBlockDelayLine ℤ, NonCausalBlockDelayLine.new (2 ^ 62) 3 5 1 = some l ∧
      (l.ReadsRight 1 ↔ 5 + 1 + 2 * 3 - 1 < 2 ^ 64 ∨
        (5 = 2 ^ 64 - 1 ∧ 0 < 1 ∧ 1 + 2 * 3 - 2 < 2 ^ 64)) := by
  obtain ⟨l, hl⟩ : ∃ l : BlockDelayLine ℤ, BlockDelayLine.new (2 ^ 62) 3 5 = some l :=
    Option.isSome_iff_exists.1 (by decide)
  obtain ⟨l', hl'⟩ : ∃ l : NonCausalBlockDelayLine ℤ,
      NonCausalBlockDelayLine.new (2 ^ 62) 3 5 1 = some l :=
    Option.isSome_iff_exists.1 (by decide)
  obtain ⟨hcausal, hnonCausal⟩ :
      (∀ l : BlockDelayLine ℤ, BlockDelayLine.new (2 ^ 62) 3 5 = some l → (l.ReadsRight ↔ _)) ∧
      ∀ l : NonCausalBlockDelayLine ℤ, NonCausalBlockDelayLine.new (2 ^ 62) 3 5 1 = some l →
        (l.ReadsRight 1 ↔ _) :=
    delayLines_readRight_iff (Nat.le_refl _) (by decide) (by decide) (a := 1) (by decide)
  exact ⟨⟨l, hl, hcausal l hl⟩, l', hl', hnonCausal l' hl'⟩

example :
    (NonCausalBlockDelayLine.new 100 3 5 1).map (fun l : NonCausalBlockDelayLine ℕ =>
      ([fun i => i + 1, fun i => i + 4, fun _ => 0, fun _ => 0].foldl
        NonCausalBlockDelayLine.writeBlock l).readBlock 3) = some (some [6, 0, 0]) := by
  decide

/-- With the largest `maxDelay` there are only two blocks. -/
theorem largest_delay_overflows :
    ∃ l : BlockDelayLine ℤ, BlockDelayLine.new (2 ^ 62) 1 (2 ^ 64 - 1) = some l ∧
      ¬ l.ReadsRight := by
  obtain ⟨l, hl⟩ : ∃ l : BlockDelayLine ℤ, BlockDelayLine.new (2 ^ 62) 1 (2 ^ 64 - 1) = some l :=
    Option.isSome_iff_exists.1 (by decide)
  refine ⟨l, hl, fun hright => ?_⟩
  have hcond := (BlockDelayLine.readsRight_iff (Nat.le_refl _) (a := 1) (by decide) hl).1 hright
  revert hcond
  decide

end Apf
