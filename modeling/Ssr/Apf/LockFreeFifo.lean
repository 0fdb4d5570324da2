import Ssr.Apf.Math
import Mathlib.Data.List.Basic
import Mathlib.Data.Nat.ModEq

/-!
# The lock-free FIFO (`apf/lockfreefifo.h`)

`LockFreeFifo T` is `LockFreeFifo<T*>`: a ring of `size` slots of pointers (`none` is `nullptr`)
with a read and a write index that wrap by masking. `push`, `pop` and `empty` are the member
functions; `Holds q xs` says that the ring holds the items `xs`, oldest first, and the `spec` lemmas
give every operation in these terms (`push_room`, `push_full`, `pop_nil`, `pop_cons`).
-/

set_option autoImplicit false

namespace Apf

structure LockFreeFifo (T : Type) where
  writeIndex : ℕ
  readIndex : ℕ
  size : ℕ
  sizeMask : ℕ
  data : List (Option T)

namespace LockFreeFifo

variable {T : Type}

/-- The constructor; `none` when `next_power_of_2` does not return, or when the slots are more than
the `maxSize` of a `std::vector<T*>`. -/
def new (maxSize fuel size : ℕ) : Option (LockFreeFifo T) :=
  (nextPowerOf2 fuel size).bind fun s =>
    if maxSize < s then none
    else some { writeIndex := 0, readIndex := 0, size := s, sizeMask := sub64 s 1,
                data := List.replicate s none }

/-- The write index `w`, moved up by the ring size when it has wrapped. -/
def unwrap (q : LockFreeFifo T) (r w : ℕ) : ℕ := if w < r then add64 w q.size else w

/-- The indices read by `push`: the write index, moved up by the ring size when it has wrapped. -/
def pushIndex (q : LockFreeFifo T) : ℕ :=
  if q.writeIndex < q.readIndex then add64 q.writeIndex q.size else q.writeIndex

/-- The last two statements of `push`: the slot and the write index are written. -/
def store (q : LockFreeFifo T) (w : ℕ) (item : Option T) : LockFreeFifo T :=
  { q with data := q.data.set (w &&& q.sizeMask) item, writeIndex := add64 w 1 &&& q.sizeMask }

def push (q : LockFreeFifo T) (item : Option T) : LockFreeFifo T × Bool :=
  match item with
  | none => (q, false)
  | some _ =>
    let r := q.readIndex
    let w := q.pushIndex
    if sub64 w r > sub64 q.size 2 then (q, false) else (q.store w item, true)

def empty (q : LockFreeFifo T) : Bool := q.readIndex == q.writeIndex

/-- The read index after an item has been read at `r`. -/
def advance (q : LockFreeFifo T) (r : ℕ) : LockFreeFifo T :=
  { q with readIndex := add64 r 1 &&& q.sizeMask }

def pop (q : LockFreeFifo T) : LockFreeFifo T × Option T :=
  if q.empty then (q, none)
  else
    let r := q.readIndex
    (q.advance r, (q.data[r]?).join)

/-- The distance of the two indices that `push` compares with the size. -/
def count (q : LockFreeFifo T) : ℕ := sub64 q.pushIndex q.readIndex

/-- The number of items that fit, as `push` has it. -/
def capacity (q : LockFreeFifo T) : ℕ := sub64 q.size 1

/-- The stored items, oldest first. -/
def contents (q : LockFreeFifo T) : List T :=
  (List.range q.count).filterMap fun i => (q.data[(q.readIndex + i) &&& q.sizeMask]?).join

/-! ## Contents -/

theorem filterMap_range_getElem? (xs : List T) :
    (List.range xs.length).filterMap (fun i => xs[i]?) = xs := by
  induction xs with
  | nil => rfl
  | cons x xs ih =>
    rw [List.length_cons, List.range_succ_eq_map, List.filterMap_cons, List.filterMap_map]
    simpa [Function.comp_def] using ih

/-- The shape of a ring of at least two slots: a power of two below `2 ^ 64`, indices in range. -/
structure Ring (q : LockFreeFifo T) : Prop where
  pow : ∃ k, 0 < k ∧ k < 64 ∧ q.size = 2 ^ k
  mask : q.sizeMask = q.size - 1
  length : q.data.length = q.size
  read : q.readIndex < q.size
  write : q.writeIndex < q.size

/-- The ring holds the items `xs`, oldest first. -/
structure Holds (q : LockFreeFifo T) (xs : List T) : Prop extends Ring q where
  room : xs.length < q.size
  write_eq : q.writeIndex = (q.readIndex + xs.length) % q.size
  slot : ∀ i, (hi : i < xs.length) → q.data[(q.readIndex + i) % q.size]? = some (some xs[i])

theorem Ring.two_le {q : LockFreeFifo T} (h : Ring q) : 2 ≤ q.size := by
  obtain ⟨k, hk, -, hs⟩ := h.pow
  rw [hs]
  calc 2 = 2 ^ 1 := rfl
    _ ≤ 2 ^ k := Nat.pow_le_pow_right (by decide) hk

theorem Ring.size_le {q : LockFreeFifo T} (h : Ring q) : q.size ≤ 2 ^ 63 := by
  obtain ⟨k, -, hk, hs⟩ := h.pow
  rw [hs]
  exact Nat.pow_le_pow_right (by decide) (by omega)

/-- Masking is the remainder. -/
theorem Ring.and_mask {q : LockFreeFifo T} (h : Ring q) (n : ℕ) : n &&& q.sizeMask = n % q.size := by
  obtain ⟨k, -, -, hs⟩ := h.pow
  rw [h.mask, hs]
  exact Nat.and_two_pow_sub_one_eq_mod n k

theorem Ring.size_lt_word {q : LockFreeFifo T} (h : Ring q) : 2 * q.size ≤ word := by
  have := h.size_le
  unfold word
  omega

/-- A write index that is `n` slots ahead of `r`, unwrapped. -/
theorem Ring.unwrap_eq {q : LockFreeFifo T} (h : Ring q) {r w n : ℕ} (hr : r < q.size)
    (hn : n < q.size) (hw : w = (r + n) % q.size) : q.unwrap r w = r + n := by
  have hsz := h.size_lt_word
  unfold unwrap
  by_cases hc : r + n < q.size
  · rw [Nat.mod_eq_of_lt hc] at hw
    rw [if_neg (by omega), hw]
  · have hmod : (r + n) % q.size = r + n - q.size := by
      rw [Nat.mod_eq_sub_mod (by omega), Nat.mod_eq_of_lt (by omega)]
    rw [hmod] at hw
    rw [if_pos (by omega), add64_eq (by omega)]
    omega

/-- The test of `push` compares the distance of the indices with the capacity. -/
theorem Ring.full_iff {q : LockFreeFifo T} (h : Ring q) {r n : ℕ} (hr : r < q.size)
    (hn : n < q.size) : sub64 (r + n) r > sub64 q.size 2 ↔ n = q.size - 1 := by
  have hsz := h.size_lt_word
  have h2 := h.two_le
  rw [sub64_eq (by omega) (by omega), sub64_eq h2 (by omega)]
  omega

/-- `_write_index`, unwrapped, is `_read_index` plus the number of items. -/
theorem Holds.pushIndex_eq {q : LockFreeFifo T} {xs : List T} (h : Holds q xs) :
    q.pushIndex = q.readIndex + xs.length :=
  h.toRing.unwrap_eq h.read h.room h.write_eq

theorem Holds.count_eq {q : LockFreeFifo T} {xs : List T} (h : Holds q xs) :
    q.count = xs.length := by
  have hsz := h.size_lt_word
  have hr := h.read
  have hroom := h.room
  rw [count, h.pushIndex_eq, sub64_eq (by omega) (by omega)]
  omega

theorem Ring.capacity_eq {q : LockFreeFifo T} (h : Ring q) : q.capacity = q.size - 1 :=
  sub64_eq (Nat.le_of_succ_le h.two_le) (by have := h.size_lt_word; have := h.two_le; omega)

theorem Holds.contents_eq {q : LockFreeFifo T} {xs : List T} (h : Holds q xs) :
    q.contents = xs := by
  rw [contents, h.count_eq]
  have hslot : ∀ i ∈ List.range xs.length,
      (q.data[(q.readIndex + i) &&& q.sizeMask]?).join = xs[i]? := by
    intro i hi
    have hi := List.mem_range.1 hi
    rw [h.and_mask, h.slot i hi, List.getElem?_eq_getElem hi, Option.join_some]
  rw [List.filterMap_congr hslot, filterMap_range_getElem?]

/-! ## The operations -/

/-- The test of `push` compares the number of items with the capacity. -/
theorem Holds.full_iff {q : LockFreeFifo T} {xs : List T} (h : Holds q xs) :
    sub64 q.pushIndex q.readIndex > sub64 q.size 2 ↔ xs.length = q.size - 1 := by
  rw [h.pushIndex_eq]
  exact h.toRing.full_iff h.read h.room

/-- Slots of different items are different. -/
theorem Holds.slot_ne {q : LockFreeFifo T} {xs : List T} (h : Holds q xs) {i : ℕ}
    (hi : i < xs.length) : q.writeIndex ≠ (q.readIndex + i) % q.size := by
  intro he
  have hroom := h.room
  have hmod := Nat.ModEq.add_left_cancel' q.readIndex
    (show Nat.ModEq q.size _ _ from h.write_eq.symm.trans he)
  have := Nat.ModEq.eq_of_lt_of_lt hmod (by omega) (by omega)
  omega

/-- The slot at the write index does not belong to the items. -/
theorem Holds.setSlot {q : LockFreeFifo T} {xs : List T} (h : Holds q xs) (item : Option T) :
    Holds { q with data := q.data.set q.writeIndex item } xs := by
  refine ⟨⟨h.pow, h.mask, by simp [h.length], h.read, h.write⟩, h.room, h.write_eq, ?_⟩
  intro i hi
  rw [List.getElem?_set_ne (h.slot_ne hi)]
  exact h.slot i hi

/-- The item in the slot at the write index joins the items when the index moves on. -/
theorem Holds.setWrite {q : LockFreeFifo T} {x : T} {xs : List T} (h : Holds q xs)
    (hf : xs.length + 1 < q.size) (hx : q.data[q.writeIndex]? = some (some x)) :
    Holds { q with writeIndex := (q.writeIndex + 1) % q.size } (xs ++ [x]) := by
  have hpos : 0 < q.size := by omega
  refine ⟨⟨h.pow, h.mask, h.length, h.read, Nat.mod_lt _ hpos⟩, by simpa using hf, ?_, ?_⟩
  · rw [h.write_eq]
    simp [Nat.add_assoc]
  · intro i hi
    rcases Nat.lt_or_ge i xs.length with hlt | hge
    · rw [h.slot i hlt, List.getElem_append_left hlt]
    · obtain rfl : i = xs.length := by simp at hi; omega
      rw [← h.write_eq, hx]
      simp

/-- The oldest item leaves the items when the read index moves on. -/
theorem Holds.setRead {q : LockFreeFifo T} {x : T} {xs : List T} (h : Holds q (x :: xs)) :
    Holds { q with readIndex := (q.readIndex + 1) % q.size } xs := by
  have hroom := h.room
  rw [List.length_cons] at hroom
  refine ⟨⟨h.pow, h.mask, h.length, Nat.mod_lt _ (by omega), h.write⟩, Nat.lt_of_succ_lt hroom, ?_, ?_⟩
  · simp only [Nat.mod_add_mod]
    rw [h.write_eq]
    congr 1
    simp only [List.length_cons]
    omega
  · intro i hi
    have := h.slot (i + 1) (by simpa using hi)
    simpa [Nat.mod_add_mod, Nat.add_assoc, Nat.add_comm 1 i] using this

/-- The slot at the read index holds the oldest item. -/
theorem Holds.head {q : LockFreeFifo T} {x : T} {xs : List T} (h : Holds q (x :: xs)) :
    (q.data[q.readIndex]?).join = some x := by
  have hslot := h.slot 0 (by simp)
  rw [Nat.add_zero, Nat.mod_eq_of_lt h.read] at hslot
  rw [hslot]
  rfl

theorem push_full {q : LockFreeFifo T} {xs : List T} (h : Holds q xs) (hf : xs.length = q.size - 1)
    (x : T) : q.push (some x) = (q, false) := by
  simp only [push, h.full_iff.2 hf, if_true]

theorem push_room {q : LockFreeFifo T} {xs : List T} (h : Holds q xs) (hf : xs.length < q.size - 1)
    (x : T) : ∃ q', q.push (some x) = (q', true) ∧ Holds q' (xs ++ [x]) ∧ q'.size = q.size := by
  have hnf : ¬ sub64 q.pushIndex q.readIndex > sub64 q.size 2 := by rw [h.full_iff]; omega
  have hsz := h.size_lt_word
  have hr := h.read
  refine ⟨q.store q.pushIndex (some x), by simp only [push, if_neg hnf], ?_, rfl⟩
  have hstore : q.store q.pushIndex (some x) = { q with
      data := q.data.set q.writeIndex (some x), writeIndex := (q.writeIndex + 1) % q.size } := by
    rw [store, h.pushIndex_eq, add64_eq (by omega), h.and_mask, h.and_mask, h.write_eq]
    simp
  rw [hstore]
  refine (h.setSlot (some x)).setWrite (show xs.length + 1 < q.size by omega) ?_
  exact List.getElem?_set_self (by rw [h.length]; exact h.write)

theorem Holds.empty_iff {q : LockFreeFifo T} {xs : List T} (h : Holds q xs) :
    q.empty = true ↔ xs = [] := by
  have hr := h.read
  have hroom := h.room
  rw [empty, beq_iff_eq, h.write_eq]
  constructor
  · intro he
    have hmod : Nat.ModEq q.size (q.readIndex + 0) (q.readIndex + xs.length) := by
      unfold Nat.ModEq
      rw [Nat.add_zero, ← he]
      exact Nat.mod_eq_of_lt hr
    have := Nat.ModEq.eq_of_lt_of_lt (Nat.ModEq.add_left_cancel' q.readIndex hmod) (by omega) hroom
    exact List.length_eq_zero_iff.1 this.symm
  · rintro rfl
    simp [Nat.mod_eq_of_lt hr]

theorem pop_nil {q : LockFreeFifo T} (h : Holds q []) : q.pop = (q, none) := by
  simp only [pop, h.empty_iff.2 rfl, if_true]

theorem pop_cons {q : LockFreeFifo T} {x : T} {xs : List T} (h : Holds q (x :: xs)) :
    ∃ q', q.pop = (q', some x) ∧ Holds q' xs ∧ q'.size = q.size := by
  have hne : ¬ q.empty = true := by rw [h.empty_iff]; simp
  have hsz := h.size_lt_word
  have hr := h.read
  refine ⟨q.advance q.readIndex, by simp only [pop, hne, h.head]; rfl, ?_, rfl⟩
  rw [advance, add64_eq (by omega), h.and_mask]
  exact h.setRead

theorem new_cases {maxSize fuel size : ℕ} {q : LockFreeFifo T}
    (h : new maxSize fuel size = some q) : ∃ r, nextPowerOf2 fuel size = some r ∧ r ≤ maxSize ∧
      q = { writeIndex := 0, readIndex := 0, size := r, sizeMask := sub64 r 1,
            data := List.replicate r none } := by
  obtain ⟨r, hr, h⟩ := Option.bind_eq_some_iff.1 h
  split at h
  · cases h
  · rename_i hle
    cases h
    exact ⟨r, hr, Nat.not_lt.1 hle, rfl⟩

/-- A new queue of at least two elements holds nothing. -/
theorem new_holds {maxSize fuel size : ℕ} {q : LockFreeFifo T} (hs : 2 ≤ size)
    (h : new maxSize fuel size = some q) : Holds q [] ∧ size ≤ q.size := by
  obtain ⟨r, hr, -, rfl⟩ := new_cases h
  obtain ⟨j, hj, rfl, hle, -⟩ := nextPowerOf2_spec (by omega) hr
  have hj0 : 0 < j := by
    rcases Nat.eq_zero_or_pos j with rfl | h
    · simp at hle; omega
    · exact h
  have hpos : 0 < 2 ^ j := Nat.two_pow_pos j
  refine ⟨⟨⟨⟨j, hj0, hj, rfl⟩, ?_, by simp, hpos, hpos⟩, hpos, by simp, by simp⟩, hle⟩
  have : 2 ^ j < word := Nat.pow_lt_pow_right (by decide) hj
  exact sub64_eq (by omega) this

end LockFreeFifo

end Apf
