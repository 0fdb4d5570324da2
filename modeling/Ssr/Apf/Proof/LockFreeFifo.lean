import Ssr.Apf.LockFreeFifo
import Ssr.Apf.ParameterMap
import Ssr.Lib.BoundedQueue
import Mathlib.Order.Bounds.Basic

/-!
# The capacity of the FIFO

A ring that holds `xs` answers `push` and `pop` as a bounded queue with the items `xs` does
(`call_sim`), so its history obeys the law of a queue of one item less than the ring has slots. That
needs at least two slots: a ring of one slot accepts every item and keeps none (`oneSlot_not_law`).
The number of slots is `next_power_of_2` of the size, which exists up to `2 ^ 63` (`roundsUp_iff`), if
the vector can have that size.
-/

set_option autoImplicit false

namespace Apf

open Lib.BoundedQueue (Call Event Law history queue)

/-! ## Rounding up -/

/-- `next_power_of_2(number)` returns, with the least power of two that is at least `number` if that
is a `size_t`, and its result minus one masks every index into the ring. -/
def RoundsUp (number : ℕ) : Prop :=
  ∃ fuel r, nextPowerOf2 fuel number = some r ∧
    (∀ p, IsLeast {p | number ≤ p ∧ ∃ k, p = 2 ^ k} p → p < word → r = p) ∧
    ∀ i, i &&& sub64 r 1 < r

theorem nextPowerOf2_le {number fuel r : ℕ} (h : nextPowerOf2 fuel number = some r) :
    number ≤ 2 ^ 63 := by
  rcases Nat.eq_zero_or_pos number with rfl | hpos
  · exact Nat.zero_le _
  · obtain ⟨j, hj, rfl, hle, -⟩ := nextPowerOf2_spec hpos h
    exact hle.trans (Nat.pow_le_pow_right (by decide) (Nat.le_of_lt_succ hj))

/-- The result is a power of two, and no smaller one would do. -/
theorem nextPowerOf2_pow {number fuel r : ℕ} (h : nextPowerOf2 fuel number = some r) :
    ∃ j, j < 64 ∧ r = 2 ^ j ∧ number ≤ r ∧ ∀ k, number ≤ 2 ^ k → r ≤ 2 ^ k := by
  rcases Nat.eq_zero_or_pos number with rfl | hpos
  · rw [nextPowerOf2_of_le_one (Nat.zero_le 1) h]
    exact ⟨0, by decide, rfl, by decide, fun k _ => Nat.one_le_two_pow⟩
  · obtain ⟨j, hj, rfl, hle, hmin⟩ := nextPowerOf2_spec hpos h
    refine ⟨j, hj, rfl, hle, fun k hk => ?_⟩
    rcases Nat.eq_zero_or_pos j with rfl | hj0
    · exact Nat.one_le_two_pow
    · have hlt : 2 ^ (j - 1) < 2 ^ k := (hmin hj0).trans_le hk
      have := (Nat.pow_lt_pow_iff_right (by decide)).1 hlt
      exact Nat.pow_le_pow_right (by decide) (by omega)

/-- The loop ends exactly for the numbers that have a power of two above them. -/
theorem roundsUp_iff (number : ℕ) : RoundsUp number ↔ number ≤ 2 ^ 63 := by
  constructor
  · rintro ⟨fuel, r, hr, -⟩
    exact nextPowerOf2_le hr
  · intro hle
    obtain ⟨r, hr⟩ := nextPowerOf2_total hle
    obtain ⟨j, hj, hpow, hnumber, hleast⟩ := nextPowerOf2_pow hr
    refine ⟨64, r, hr, ?_, fun i => ?_⟩
    · rintro p ⟨⟨hp, k, rfl⟩, hmin⟩ -
      exact Nat.le_antisymm (hleast k hp) (hmin ⟨hnumber, j, hpow⟩)
    · have hpos : 0 < 2 ^ j := Nat.two_pow_pos j
      have hword : 2 ^ j < word := Nat.pow_lt_pow_right (by decide) hj
      rw [hpow, sub64_eq hpos hword, Nat.and_two_pow_sub_one_eq_mod]
      exact Nat.mod_lt _ hpos

/-- **The size of the command queues** is rounded up for every parameter that is not negative. -/
theorem queueSize_roundsUp_iff (params : ParameterMap) :
    RoundsUp params.queueSize ↔ 0 ≤ params.fifoSize.toInt := by
  have hlo := params.fifoSize.le_toInt
  have hhi := params.fifoSize.toInt_lt
  rw [roundsUp_iff, ParameterMap.queueSize, toSize, word]
  omega

/-- A negative size. -/
theorem queueSize_negative :
    ¬ RoundsUp (ParameterMap.queueSize ⟨fun k => if k = "fifo_size" then some "-1" else none⟩) := by
  rw [roundsUp_iff]
  decide

/-! ## Sequences of calls -/

namespace LockFreeFifo

variable {T : Type} {q : LockFreeFifo T} {xs : List T}

/-- A call of `push`, with a pointer that is not null, or of `pop`. -/
def call (q : LockFreeFifo T) : Call T → LockFreeFifo T × Event T
  | .push x => ((q.push (some x)).1, .push x (q.push (some x)).2)
  | .pop => (q.pop.1, .pop q.pop.2)

/-- The ring `q` stands for the bounded queue of the items `xs`. -/
def Abstracts (capacity : ℕ) (q : LockFreeFifo T) (xs : List T) : Prop :=
  Holds q xs ∧ q.size = capacity + 1

/-- A call answers as the bounded queue does. -/
theorem call_sim {capacity : ℕ} (h : Abstracts capacity q xs) (c : Call T) :
    (q.call c).2 = (queue capacity xs c).2 ∧
      Abstracts capacity (q.call c).1 (queue capacity xs c).1 := by
  obtain ⟨hholds, hsize⟩ := h
  cases c with
  | push x =>
    by_cases hroom : xs.length < capacity
    · obtain ⟨q', hpush, hholds', hsize'⟩ := push_room hholds (by omega) x
      rw [call, hpush, queue, Lib.BoundedQueue.push_room hroom]
      exact ⟨rfl, hholds', hsize'.trans hsize⟩
    · have hfull : xs.length = q.size - 1 := by
        have := hholds.room
        omega
      rw [call, push_full hholds hfull x, queue, Lib.BoundedQueue.push_full hroom]
      exact ⟨rfl, hholds, hsize⟩
  | pop =>
    cases xs with
    | nil =>
      rw [call, pop_nil hholds]
      exact ⟨rfl, hholds, hsize⟩
    | cons x xs =>
      obtain ⟨q', hpop, hholds', hsize'⟩ := pop_cons hholds
      rw [call, hpop]
      exact ⟨rfl, hholds', hsize'.trans hsize⟩

/-- The history of an empty ring is the history of an empty bounded queue. -/
theorem history_law {capacity : ℕ} (h : Abstracts capacity q []) (calls : List (Call T)) :
    Law capacity (history call q calls) := by
  rw [Lib.BoundedQueue.history_eq (R := Abstracts capacity) (fun _ _ c h => call_sim h c) h]
  exact Lib.BoundedQueue.history_law calls

/-- The constructor returns, and in every sequence of calls the FIFO is a bounded queue of
`next_power_of_2(size)` minus one items. -/
def CapacityLaw (T : Type) (maxSize size : ℕ) : Prop :=
  ∃ (fuel r : ℕ) (q : LockFreeFifo T), nextPowerOf2 fuel size = some r ∧
    new maxSize fuel size = some q ∧ ∀ calls, Law (r - 1) (history call q calls)

variable {maxSize fuel size : ℕ}

theorem new_total {r : ℕ} (h : nextPowerOf2 fuel size = some r) (hle : r ≤ maxSize) :
    ∃ q : LockFreeFifo T, new maxSize fuel size = some q ∧ q.size = r := by
  rw [new, h, Option.bind_some, if_neg (Nat.not_lt.2 hle)]
  exact ⟨_, rfl, rfl⟩

/-- A ring of one slot, which is where both indices always point. -/
def oneSlot : LockFreeFifo T :=
  { writeIndex := 0, readIndex := 0, size := 1, sizeMask := 0, data := [none] }

theorem new_one (hsize : size ≤ 1) (h : new maxSize fuel size = some q) : q = oneSlot := by
  obtain ⟨r, hr, -, rfl⟩ := new_cases h
  rw [nextPowerOf2_of_le_one hsize hr]
  rfl

/-- It accepts an item for which there is no room. -/
theorem oneSlot_not_law (x : T) : ¬ Law 0 (history call oneSlot [.push x]) := by
  intro hlaw
  have hhistory : history call oneSlot [.push x] = [.push x true] := by
    have hroom : ¬ sub64 0 0 > sub64 1 2 := by decide
    simp [history, call, push, pushIndex, oneSlot, hroom]
  exact absurd ((hlaw.push_true_iff [] x true [] hhistory).1 rfl) (Nat.not_lt_zero _)

theorem not_capacityLaw_one (x : T) : ¬ CapacityLaw T maxSize 1 := by
  rintro ⟨fuel, r, q, hr, hq, hlaw⟩
  rw [nextPowerOf2_of_le_one (Nat.le_refl 1) hr, new_one (Nat.le_refl 1) hq] at hlaw
  exact oneSlot_not_law x (hlaw _)

/-- **The FIFO is a bounded queue** exactly for the sizes from 2 on for which there is a power of two
that is a `size_t` and a size of the vector. -/
theorem capacity_law_iff [Nonempty T] (hpos : 1 ≤ size) :
    CapacityLaw T maxSize size ↔ 2 ≤ size ∧ ∃ k < 64, size ≤ 2 ^ k ∧ 2 ^ k ≤ maxSize := by
  constructor
  · intro hlaw
    refine ⟨?_, ?_⟩
    · by_contra hlt
      obtain rfl : size = 1 := by omega
      obtain ⟨x⟩ := ‹Nonempty T›
      exact not_capacityLaw_one x hlaw
    · obtain ⟨fuel, r, q, hr, hq, -⟩ := hlaw
      obtain ⟨r', hr', hmax, -⟩ := new_cases hq
      obtain rfl : r = r' := Option.some_injective _ (hr.symm.trans hr')
      obtain ⟨j, hj, rfl, hle, -⟩ := nextPowerOf2_pow hr
      exact ⟨j, hj, hle, hmax⟩
  · rintro ⟨h2, k, hk, hle, hmax⟩
    have hword : size ≤ 2 ^ 63 := hle.trans (Nat.pow_le_pow_right (by decide) (Nat.le_of_lt_succ hk))
    obtain ⟨r, hr⟩ := nextPowerOf2_total hword
    obtain ⟨-, -, -, -, hleast⟩ := nextPowerOf2_pow hr
    obtain ⟨q, hq, hsize⟩ := new_total (T := T) hr ((hleast k hle).trans hmax)
    obtain ⟨hholds, -⟩ := new_holds h2 hq
    have hslots := hholds.two_le
    exact ⟨64, r, q, hr, hq, history_law ⟨hholds, by omega⟩⟩

/-- On a platform with pointers of 8 bytes. -/
theorem capacity_law_two : 1 ≤ 2 ∧ 1 ≤ 2 ^ 59 + 1 ∧ CapacityLaw ℕ (2 ^ 60 - 1) 2 ∧
    ¬ CapacityLaw ℕ (2 ^ 60 - 1) (2 ^ 59 + 1) := by
  refine ⟨by decide, by decide, (capacity_law_iff (by decide)).2 ⟨le_rfl, 1, by decide⟩, fun hlaw => ?_⟩
  obtain ⟨-, k, -, hle, hmax⟩ := (capacity_law_iff (by decide)).1 hlaw
  have hlo : 59 < k := (Nat.pow_lt_pow_iff_right (a := 2) (by decide)).1 (by omega)
  have hhi : k < 60 := (Nat.pow_lt_pow_iff_right (a := 2) (by decide)).1 (by omega)
  omega

/-- The size 1: the item is accepted, and then there is nothing to pop. -/
theorem capacity_law_one : ¬ CapacityLaw ℕ (2 ^ 60 - 1) 1 ∧
    ∃ q : LockFreeFifo ℕ, new (2 ^ 60 - 1) 1 1 = some q ∧
      history call q [.push 7, .pop] = [.push 7 true, .pop none] :=
  ⟨not_capacityLaw_one 7, _, rfl, rfl⟩

end LockFreeFifo

end Apf
