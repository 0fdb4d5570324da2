import Ssr.Renderer.HoaCoefficients

/-!
# The rows of an order

The rows of the orders lie one after the other: a start row is a quarter square, and the number of
sections is the difference of two of them (`startRow_next_iff`). This needs squares that do not wrap
from one order to the next, which holds up to `2 ^ 32`. An order below `2 ^ 32` whose first row is in
the table has all its rows there (`rows_inside`); `tiles_iff` is about all orders.
-/

set_option autoImplicit false

namespace Ssr.HoaCoefficients

open Apf (CMath add64 mul64 word add64_eq)

/-! ## Start rows and sections -/

theorem mul64_self_mod_four (order : ℕ) : mul64 order order % 4 = order % 2 := by
  rw [mul64, word, Nat.mod_mod_of_dvd _ (by decide)]
  rcases Nat.even_or_odd' order with ⟨k, rfl | rfl⟩
  · have : 2 * k * (2 * k) = 4 * (k * k) := by ring
    omega
  · have : (2 * k + 1) * (2 * k + 1) = 4 * (k * k + k) + 1 := by ring
    omega

theorem quarter_add_half {m n : ℕ} (h : m % 4 = n % 2) :
    m / 4 + (n + 1) / 2 = (m + 2 * n + 1) / 4 := by
  rcases Nat.even_or_odd' n with ⟨k, rfl | rfl⟩
  · obtain ⟨j, rfl⟩ : ∃ j, m = 4 * j := ⟨m / 4, by omega⟩
    omega
  · obtain ⟨j, rfl⟩ : ∃ j, m = 4 * j + 1 := ⟨m / 4, by omega⟩
    omega

/-- A quarter of a word that has wrapped is another one. -/
theorem quarter_mod_iff {x : ℕ} : x / 4 = x % word / 4 ↔ x < word := by
  rcases Nat.lt_or_ge x word with hlt | hge
  · simp [Nat.mod_eq_of_lt hlt, hlt]
  · have hle : x % word ≤ x - word := by
      rw [Nat.mod_eq_sub_mod hge]
      exact Nat.mod_le _ _
    unfold word at *
    omega

theorem mul64_lt (a b : ℕ) : mul64 a b < word := Nat.mod_lt _ (by decide)

/-- The next square, from the one that has been computed. -/
theorem mul64_succ (order : ℕ) :
    mul64 (order + 1) (order + 1) = (mul64 order order + 2 * order + 1) % word := by
  rw [mul64, mul64, Nat.add_assoc, Nat.mod_add_mod]
  congr 1
  ring

theorem startRow_zero : startRow 0 = 0 := rfl

theorem startRow_pos {order : ℕ} (h : 0 < order) :
    startRow order = 1 + mul64 order order / 4 := by
  have hlt := mul64_lt order order
  unfold word at hlt
  rw [startRow, if_neg (by omega), add64_eq (by unfold word; omega)]

theorem numSections_eq {order : ℕ} (h : order + 1 < word) :
    numSections order = if order = 0 then 1 else (order + 1) / 2 := by
  rw [numSections, add64_eq h]

/-- The rows of an order end where those of the next order start, if and only if the square does not
wrap in between. -/
theorem startRow_next_iff {order : ℕ} (h : order < word) :
    startRow order + numSections order = startRow (add64 order 1) ↔
      mul64 order order + 2 * order + 1 < word := by
  rcases Nat.eq_zero_or_pos order with rfl | hpos
  · decide
  · have hlt := mul64_lt order order
    have hquarter := quarter_add_half (mul64_self_mod_four order)
    rw [startRow_pos hpos]
    by_cases hlast : order + 1 < word
    · rw [numSections_eq hlast, if_neg (by omega), add64_eq hlast, startRow_pos (by omega),
        mul64_succ, Nat.add_assoc, hquarter]
      rw [Nat.add_left_cancel_iff, quarter_mod_iff]
    · have hwrap : add64 order 1 = 0 := by
        rw [add64, show order + 1 = word by omega, Nat.mod_self]
      rw [hwrap, startRow_zero]
      omega

/-- Up to `2 ^ 32` squares do not wrap. -/
theorem mul64_of_lt {order : ℕ} (h : order < 2 ^ 32) : mul64 order order = order * order := by
  have : order * order < 2 ^ 32 * 2 ^ 32 := Nat.mul_lt_mul'' h h
  exact Nat.mod_eq_of_lt (by unfold word; omega)

/-- The table has all rows of an order, if it has the first one. -/
theorem rows_inside {order : ℕ} (h : order < 2 ^ 32) (hfirst : startRow order < laplaceCoeffsRows) :
    startRow order + numSections order ≤ laplaceCoeffsRows := by
  unfold laplaceCoeffsRows at *
  rcases Nat.eq_zero_or_pos order with rfl | hpos
  · decide
  · rw [startRow_pos hpos, mul64_of_lt h] at hfirst ⊢
    have hlt : order < 29 := by
      by_contra hge
      have : 29 * 29 ≤ order * order := Nat.mul_le_mul (by omega) (by omega)
      omega
    have hsq : (order + 1) * (order + 1) ≤ 29 * 29 := Nat.mul_le_mul (by omega) (by omega)
    have hnext : (order + 1) * (order + 1) = order * order + 2 * order + 1 := by ring
    rw [numSections_eq (by unfold word; omega), if_neg (by omega)]
    omega

/-- As long as squares do not wrap, the first row is that of the renderer's modes. -/
theorem startRow_eq {order : ℕ} (h : order < 2 ^ 32) : startRow order = Ssr.coeffsBegin order := by
  rcases Nat.eq_zero_or_pos order with rfl | hpos
  · rfl
  · rw [startRow_pos hpos, mul64_of_lt h, Ssr.coeffsBegin, if_neg (by omega)]

/-! ## Reading rows -/

theorem readRows_isSome_iff {α : Type} (table : List α) (first n : ℕ) :
    (readRows table first n).isSome ↔ n = 0 ∨ first + n ≤ table.length := by
  induction n generalizing first with
  | zero => simp [readRows]
  | succ n ih =>
    by_cases hfirst : first < table.length
    · have hrest : (readRows table first (n + 1)).isSome =
          (readRows table (first + 1) n).isSome := by
        rw [readRows, List.getElem?_eq_getElem hfirst]
        cases readRows table (first + 1) n <;> rfl
      rw [hrest, ih]
      omega
    · have hnone : readRows table first (n + 1) = none := by
        rw [readRows, List.getElem?_eq_none (by omega)]
        rfl
      simp only [hnone, Option.isSome_none, Bool.false_eq_true, false_iff]
      omega

theorem readRows_length {α : Type} {table rows : List α} {first n : ℕ}
    (h : readRows table first n = some rows) : rows.length = n := by
  induction n generalizing first rows with
  | zero =>
    cases h
    rfl
  | succ n ih =>
    rw [readRows] at h
    simp only [Option.bind_eq_bind, Option.bind_eq_some_iff] at h
    obtain ⟨row, -, rest, hrest, hrows⟩ := h
    cases hrows
    rw [List.length_cons, ih hrest]

variable {T : Type} [DivisionRing T] {c c' : HoaCoefficients T}

/-- What the constructor has checked. -/
theorem new_ok {maxSize order sampleRate : ℕ} {arrayRadius speedOfSound : T}
    (h : new maxSize order sampleRate arrayRadius speedOfSound = .ok c) :
    numSections order ≤ maxSize ∧ startRow order < laplaceCoeffsRows ∧
      c.coeffsBegin = startRow order ∧ c.sections.length = numSections order := by
  unfold new at h
  split at h
  · cases h
  · split at h
    · cases h
    · cases h
      exact ⟨by omega, by omega, rfl, List.length_replicate⟩

theorem new_total {maxSize order : ℕ} (hsize : numSections order ≤ maxSize)
    (hrow : startRow order < laplaceCoeffsRows) (sampleRate : ℕ) (arrayRadius speedOfSound : T) :
    ∃ c, new maxSize order sampleRate arrayRadius speedOfSound = .ok c := by
  unfold new
  rw [if_neg (by omega), if_neg (by omega)]
  exact ⟨_, rfl⟩

variable [LinearOrder T] [CMath T] {table : List (T × T)} {distance : T} {sourceType : SourceType}

theorem reset_isSome_iff : (c.reset table distance sourceType).isSome ↔
    c.sections.length = 0 ∨ c.coeffsBegin + c.sections.length ≤ table.length := by
  rw [reset, Option.isSome_map, readRows_isSome_iff]

/-- `reset()` keeps the place in the table. -/
theorem reset_place (h : c.reset table distance sourceType = some c') :
    c'.coeffsBegin = c.coeffsBegin ∧ c'.sections.length = c.sections.length := by
  rw [reset, Option.map_eq_some_iff] at h
  obtain ⟨rows, hrows, rfl⟩ := h
  exact ⟨rfl, by rw [List.length_map, readRows_length hrows]⟩

/-- Calls of `reset()`, one after the other; `none` if a row is read outside the table. -/
def resets (table : List (T × T)) :
    HoaCoefficients T → List (T × SourceType) → Option (HoaCoefficients T)
  | c, [] => some c
  | c, (distance, sourceType) :: calls =>
    (c.reset table distance sourceType).bind fun c' => resets table c' calls

theorem resets_isSome (h : c.coeffsBegin + c.sections.length ≤ table.length)
    (calls : List (T × SourceType)) : (resets table c calls).isSome := by
  induction calls generalizing c with
  | nil => rfl
  | cons call calls ih =>
    obtain ⟨distance, sourceType⟩ := call
    obtain ⟨c', hc'⟩ := Option.isSome_iff_exists.1
      ((@reset_isSome_iff _ _ _ _ _ _ distance sourceType).2 (Or.inr h))
    obtain ⟨hbegin, hlength⟩ := reset_place hc'
    rw [resets, hc']
    exact ih (by rw [hbegin, hlength]; exact h)

/-- The rows of the order and of the next one lie one after the other, the vector is as long as the
filter, and `reset()` of an order that is accepted reads rows of the table only. -/
structure Tiles (T : Type) [DivisionRing T] [LinearOrder T] [CMath T] (maxSize order : ℕ) : Prop where
  zero : startRow 0 = 0
  next : startRow order + numSections order = startRow (add64 order 1)
  filter : numSections order = Mode.filterSections order
  inside : ∀ sampleRate (arrayRadius speedOfSound : T) c,
    new maxSize order sampleRate arrayRadius speedOfSound = .ok c →
    ∀ table : List (T × T), table.length = laplaceCoeffsRows → ∀ calls,
      (resets table c calls).isSome

/-- An order above `2 ^ 32` whose first row is in the table after all. -/
theorem Tiles.not_wrapped {maxSize order : ℕ} (h : Tiles T maxSize order) (hword : order + 1 < word)
    (hle : 2 ^ 32 ≤ order) (hsquare : mul64 order order < 840) : maxSize < numSections order := by
  by_contra hsize
  have hrow : startRow order < laplaceCoeffsRows := by
    rw [startRow_pos (by omega)]
    unfold laplaceCoeffsRows
    omega
  obtain ⟨c, hc⟩ := new_total (T := T) (Nat.not_lt.1 hsize) hrow 0 0 0
  obtain ⟨-, -, -, hlength⟩ := new_ok hc
  have hsome := h.inside _ _ _ c hc (List.replicate laplaceCoeffsRows (0, 0)) (by simp)
    [(0, .pointSource)]
  have hreset : (c.reset (List.replicate laplaceCoeffsRows (0, 0)) 0 .pointSource).isSome := by
    rw [resets] at hsome
    exact Option.isSome_of_isSome_bind hsome
  rw [reset_isSome_iff, hlength, numSections_eq hword, if_neg (by omega), List.length_replicate]
    at hreset
  unfold laplaceCoeffsRows at hreset
  omega

/-- **The table is addressed without gap or overlap** by every order up to `2 ^ 32`, and beyond that
by those whose square wraps into nothing that the constructor would take for a row. -/
theorem tiles_iff {maxSize order : ℕ} (h : order < word) :
    Tiles T maxSize order ↔ mul64 order order + 2 * order + 1 < word ∧
      (order < 2 ^ 32 ∨ 840 ≤ mul64 order order ∨ maxSize < numSections order) := by
  constructor
  · intro htiles
    have hnext := (startRow_next_iff h).1 htiles.next
    refine ⟨hnext, ?_⟩
    by_cases hlt : order < 2 ^ 32
    · exact Or.inl hlt
    · by_cases hsquare : mul64 order order < 840
      · exact Or.inr (Or.inr (htiles.not_wrapped (by omega) (Nat.not_lt.1 hlt) hsquare))
      · exact Or.inr (Or.inl (Nat.not_lt.1 hsquare))
  · rintro ⟨hnext, hrejected⟩
    refine ⟨rfl, (startRow_next_iff h).2 hnext, rfl, ?_⟩
    intro sampleRate arrayRadius speedOfSound c hc table htable calls
    obtain ⟨hsize, hrow, hbegin, hlength⟩ := new_ok hc
    refine resets_isSome ?_ calls
    rw [hbegin, hlength, htable]
    refine rows_inside ?_ hrow
    rcases hrejected with hlt | hsquare | hmax
    · exact hlt
    · by_contra hge
      rw [startRow_pos (by omega)] at hrow
      unfold laplaceCoeffsRows at hrow
      omega
    · omega

theorem tiles_last : 28 < word ∧ (Tiles ℝ (2 ^ 57) 28 ↔ mul64 28 28 + 2 * 28 + 1 < word ∧
    (28 < 2 ^ 32 ∨ 840 ≤ mul64 28 28 ∨ 2 ^ 57 < numSections 28)) :=
  ⟨by decide, tiles_iff (by decide)⟩

/-- The order `2 ^ 32`: its square wraps to 0, and `2 ^ 31` rows are read from row 1 on. -/
theorem tiles_wrapped : startRow (2 ^ 32) = 1 ∧ numSections (2 ^ 32) = 2 ^ 31 ∧
    ¬ Tiles ℝ (2 ^ 57) (2 ^ 32) := by
  refine ⟨by decide, by decide, fun h => ?_⟩
  have hsize : 2 ^ 57 < numSections (2 ^ 32) := h.not_wrapped (by decide) (by decide) (by decide)
  exact absurd hsize (by decide)

end Ssr.HoaCoefficients
