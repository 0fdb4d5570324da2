import Ssr.Apf.CircularIterator
import Ssr.Apf.BlockDelayLine
import Mathlib.Algebra.Torsor.Basic

/-!
# Arithmetic of circular iterators

The `index` of an iterator is its distance from the beginning of the range. An iterator over a range
of length `n` is given by its index modulo `n` (`Over.ext_mod`), and every operator adds to the
index modulo `n` (`at_addAssign`, `at_next`, `at_prev`). The laws are arithmetic of remainders.
-/

set_option autoImplicit false

namespace Apf.CircularIterator

variable {I α : Type} [AddTorsor ℤ I] {b e : I} {it p q : CircularIterator I}

/-- The position in the range. -/
def index (it : CircularIterator I) : ℤ := it.current -ᵥ it.begin

/-- An iterator over the range from `b` to `e`, whose base is inside the range. -/
structure Over (b e : I) (it : CircularIterator I) : Prop where
  begin_eq : it.begin = b
  past_eq : it.past = e
  nonneg : 0 ≤ it.current -ᵥ b
  lt : it.current -ᵥ b < e -ᵥ b

theorem Over.length_pos (h : Over b e it) : 0 < e -ᵥ b := h.nonneg.trans_lt h.lt

theorem Over.index_eq (h : Over b e it) : it.index = it.current -ᵥ b := by
  rw [index, h.begin_eq]

/-- The index is its own remainder. -/
theorem Over.index_mod (h : Over b e it) : it.index % (e -ᵥ b) = it.index := by
  rw [h.index_eq]
  exact Int.emod_eq_of_lt h.nonneg h.lt

/-- An iterator is given by its index modulo the length. -/
theorem Over.ext_mod (hp : Over b e p) (hq : Over b e q)
    (h : p.index % (e -ᵥ b) = q.index % (e -ᵥ b)) : p = q := by
  rw [hp.index_mod, hq.index_mod, hp.index_eq, hq.index_eq] at h
  obtain ⟨begin, past, current⟩ := p
  obtain ⟨begin', past', current'⟩ := q
  have hcurrent : current = current' := vsub_left_cancel h
  have hbegin : begin = begin' := hp.begin_eq.trans hq.begin_eq.symm
  have hpast : past = past' := hp.past_eq.trans hq.past_eq.symm
  rw [hcurrent, hbegin, hpast]

/-- What is at the index `k` of the range. -/
structure At (b e : I) (k : ℤ) (it : CircularIterator I) : Prop extends Over b e it where
  index : it.index = k

theorem at_vadd {k : ℤ} (hk : 0 ≤ k) (hlt : k < e -ᵥ b) : At b e k ⟨b, e, k +ᵥ b⟩ := by
  refine ⟨⟨rfl, rfl, ?_, ?_⟩, ?_⟩
  · rwa [vadd_vsub]
  · rwa [vadd_vsub]
  · exact vadd_vsub k b

/-! ## Operators -/

theorem at_addAssign (h : Over b e it) (n : ℤ) :
    At b e ((it.index + n) % (e -ᵥ b)) (it.addAssign n) := by
  have hpos := h.length_pos
  have hat : At b e ((it.index + n) % (e -ᵥ b)) ⟨b, e, (it.index + n) % (e -ᵥ b) +ᵥ b⟩ :=
    at_vadd (Int.emod_nonneg _ hpos.ne') (Int.emod_lt_of_pos _ hpos)
  have hadd : it.addAssign n = ⟨b, e, (it.index + n) % (e -ᵥ b) +ᵥ b⟩ := by
    obtain ⟨begin, past, current⟩ := it
    obtain ⟨rfl, rfl, -, -⟩ := h
    simp only [addAssign, wrap_eq hpos, CircularIterator.index]
  rwa [hadd]

theorem add_modEq (h : Over b e it) (n : ℤ) :
    (it.addAssign n).index % (e -ᵥ b) = (it.index + n) % (e -ᵥ b) := by
  rw [(at_addAssign h n).index, Int.emod_emod]

/-- The difference is the distance from the right iterator on to the left one. -/
theorem diff_eq (hp : Over b e p) (hq : Over b e q) :
    p.diff q = (p.index - q.index) % (e -ᵥ b) := by
  have hpi := hp.index_eq
  have hqi := hq.index_eq
  have hp0 := hp.nonneg
  have hplt := hp.lt
  have hq0 := hq.nonneg
  have hqlt := hq.lt
  have hd : p.current -ᵥ q.current = p.index - q.index := by
    rw [hpi, hqi, vsub_sub_vsub_cancel_right]
  have hwrapped : ((p.current -ᵥ p.begin) +ᵥ q.past) -ᵥ q.current =
      p.index - q.index + (e -ᵥ b) := by
    have hindex : p.current -ᵥ p.begin = p.index := rfl
    rw [vadd_vsub_assoc, hq.past_eq, ← vsub_sub_vsub_cancel_right e q.current b, ← hqi, hindex]
    omega
  rw [diff]
  simp only [hd, hwrapped]
  split
  · rw [← Int.add_emod_right, Int.emod_eq_of_lt (by omega) (by omega)]
  · rw [Int.emod_eq_of_lt (by omega) (by omega)]

theorem add_zero_eq (h : Over b e it) : it.add 0 = it := by
  refine (at_addAssign h 0).toOver.ext_mod h ?_
  have hindex := add_modEq h 0
  rwa [Int.add_zero] at hindex

theorem add_add_eq (h : Over b e it) (x y : ℤ) : (it.add x).add y = it.add (x + y) := by
  have hx := (at_addAssign h x).toOver
  refine (at_addAssign hx y).toOver.ext_mod (at_addAssign h (x + y)).toOver ?_
  calc ((it.addAssign x).addAssign y).index % (e -ᵥ b)
      = ((it.addAssign x).index + y) % (e -ᵥ b) := add_modEq hx y
    _ = ((it.index + x) % (e -ᵥ b) + y) % (e -ᵥ b) := by rw [(at_addAssign h x).index]
    _ = (it.index + (x + y)) % (e -ᵥ b) := by rw [Int.emod_add_emod, Int.add_assoc]
    _ = (it.addAssign (x + y)).index % (e -ᵥ b) := (add_modEq h (x + y)).symm

/-- Whole rounds lead back. -/
theorem add_mul_eq (h : Over b e it) (k : ℤ) : it.add ((e -ᵥ b) * k) = it :=
  (at_addAssign h _).toOver.ext_mod h
    ((add_modEq h _).trans (Int.add_mul_emod_self_left it.index (e -ᵥ b) k))

theorem add_diff_eq (hp : Over b e p) (hq : Over b e q) : q.add (p.diff q) = p := by
  refine (at_addAssign hq _).toOver.ext_mod hp ?_
  have hback : q.index + (p.index - q.index) = p.index := by omega
  rw [diff_eq hp hq, add_modEq hq, Int.add_emod_emod, hback]

theorem diff_mem (hp : Over b e p) (hq : Over b e q) : 0 ≤ p.diff q ∧ p.diff q < e -ᵥ b := by
  have hpos := hp.length_pos
  rw [diff_eq hp hq]
  exact ⟨Int.emod_nonneg _ hpos.ne', Int.emod_lt_of_pos _ hpos⟩

/-- Where the base of an iterator is. -/
theorem Over.current_eq (h : Over b e it) : it.current = it.index +ᵥ b := by
  rw [h.index_eq, vsub_vadd]

theorem vadd_eq_iff (k : ℤ) : k +ᵥ b = e ↔ k = e -ᵥ b := by
  rw [eq_comm, eq_vadd_iff_vsub_eq, eq_comm]

/-- The positions of a delay line are indices of a circular iterator. -/
theorem circularAdd_index (h : Over b e it) {n : ℤ} (hle : -2 ^ 63 ≤ it.index + n)
    (hlt : it.index + n < 2 ^ 63) :
    circularAdd (e -ᵥ b).toNat it.index.toNat n = (it.addAssign n).index.toNat := by
  have hindex := h.index_eq
  have hnonneg := h.nonneg
  have hpos := h.length_pos
  rw [(at_addAssign h n).index, circularAdd, Int.toNat_of_nonneg (by omega),
    Int.toNat_of_nonneg hpos.le, toDifference_eq hle hlt, wrap_eq hpos]

theorem circularDistance_index (hp : Over b e p) (hq : Over b e q) :
    circularDistance (e -ᵥ b).toNat p.index.toNat q.index.toNat = (p.diff q).toNat := by
  have hpi := hp.index_eq
  have hqi := hq.index_eq
  have hp0 := hp.nonneg
  have hplt := hp.lt
  have hq0 := hq.nonneg
  have hqlt := hq.lt
  rw [diff_eq hp hq, circularDistance]
  split
  · rw [← Int.add_emod_right, Int.emod_eq_of_lt (by omega) (by omega)]
    omega
  · rw [Int.emod_eq_of_lt (by omega) (by omega)]
    omega

theorem over_ofRange (hrange : 0 < e -ᵥ b) : Over b e (ofRange b e) :=
  ⟨rfl, rfl, (vsub_self b).ge, (vsub_self b).trans_lt hrange⟩

theorem over_stagnant (b : I) : Over b ((1 : ℤ) +ᵥ b) (stagnant b) :=
  over_ofRange ((vadd_vsub (1 : ℤ) b).symm ▸ Int.one_pos)

variable [DecidableEq I]

theorem at_next (h : Over b e it) : At b e ((it.index + 1) % (e -ᵥ b)) it.next := by
  have hindex := h.index_eq
  have hnonneg := h.nonneg
  have hlt := h.lt
  have hcurrent : (1 : ℤ) +ᵥ it.current = (it.index + 1) +ᵥ b := by
    rw [h.current_eq, vadd_vadd, Int.add_comm]
  have hnext : it.next =
      ⟨b, e, if it.index + 1 = e -ᵥ b then b else (it.index + 1) +ᵥ b⟩ := by
    obtain ⟨begin, past, current⟩ := it
    obtain ⟨rfl, rfl, -, -⟩ := h
    simp only [next, hcurrent, vadd_eq_iff]
  rw [hnext]
  split
  · rename_i hwrap
    rw [hwrap, Int.emod_self]
    simpa using (at_vadd (le_refl 0) h.length_pos : At b e 0 _)
  · rw [Int.emod_eq_of_lt (by omega) (by omega)]
    exact at_vadd (by omega) (by omega)

theorem at_prev (h : Over b e it) : At b e ((it.index - 1) % (e -ᵥ b)) it.prev := by
  have hindex := h.index_eq
  have hnonneg := h.nonneg
  have hlt := h.lt
  by_cases hfirst : it.current = b
  · have hprev : it.prev = ⟨b, e, (e -ᵥ b - 1) +ᵥ b⟩ := by
      have hend : (-1 : ℤ) +ᵥ e = (e -ᵥ b - 1) +ᵥ b := by
        rw [eq_vadd_iff_vsub_eq, vadd_vsub_assoc]
        omega
      obtain ⟨begin, past, current⟩ := it
      obtain ⟨rfl, rfl, -, -⟩ := h
      rw [prev, if_pos hfirst, hend]
    have hzero : it.index = 0 := by rw [hindex, hfirst, vsub_self]
    rw [hprev, hzero, ← Int.add_emod_right, Int.emod_eq_of_lt (by omega) (by omega)]
    convert (at_vadd (by omega) (by omega) : At b e (e -ᵥ b - 1) _) using 1
    omega
  · have hprev : it.prev = ⟨b, e, (it.index - 1) +ᵥ b⟩ := by
      have hbefore : (-1 : ℤ) +ᵥ it.current = (it.index - 1) +ᵥ b := by
        rw [eq_vadd_iff_vsub_eq, vadd_vsub_assoc, hindex]
        omega
      obtain ⟨begin, past, current⟩ := it
      obtain ⟨rfl, rfl, -, -⟩ := h
      rw [prev, if_neg hfirst, hbefore]
    have hne : it.index ≠ 0 := by rwa [hindex, vsub_ne_zero]
    rw [hprev, Int.emod_eq_of_lt (by omega) (by omega)]
    exact at_vadd (by omega) (by omega)

theorem circularNext_index (h : Over b e it) :
    circularNext (e -ᵥ b).toNat it.index.toNat = it.next.index.toNat := by
  have hindex := h.index_eq
  have hnonneg := h.nonneg
  have hlt := h.lt
  rw [(at_next h).index, circularNext]
  split
  · rw [show it.index + 1 = e -ᵥ b by omega, Int.emod_self]
    rfl
  · rw [Int.emod_eq_of_lt (by omega) (by omega)]
    omega

/-! ## The laws -/

theorem at_move (h : Over b e it) (m : Move) : ∃ k, At b e k (it.move m) := by
  cases m with
  | next => exact ⟨_, at_next h⟩
  | prev => exact ⟨_, at_prev h⟩
  | add n => exact ⟨_, at_addAssign h n⟩
  | sub n => exact ⟨_, at_addAssign h (-n)⟩

/-- The base stays inside the range. -/
theorem over_moves (h : Over b e it) (moves : List Move) : Over b e (moves.foldl move it) := by
  induction moves generalizing it with
  | nil => exact h
  | cons m moves ih =>
    obtain ⟨k, hk⟩ := at_move h m
    exact ih hk.toOver

theorem over_new (hrange : 0 < e -ᵥ b) {current : I} (hnonneg : 0 ≤ current -ᵥ b)
    (hle : current -ᵥ b ≤ e -ᵥ b) : Over b e (new b e current) := by
  by_cases hend : current = e
  · refine ⟨rfl, rfl, ?_, ?_⟩
    · simp [new, hend]
    · simpa [new, hend] using hrange
  · have hne : current -ᵥ b ≠ e -ᵥ b := fun h => hend (vsub_left_cancel h)
    refine ⟨rfl, rfl, ?_, ?_⟩
    · simpa [new, hend] using hnonneg
    · simp only [new, if_neg hend]
      omega

/-- `operator==` is equality. -/
theorem same_iff (hp : Over b e p) (hq : Over b e q) : p.same q = true ↔ p = q := by
  rw [same, beq_iff_eq]
  constructor
  · intro h
    refine hp.ext_mod hq ?_
    rw [hp.index_eq, hq.index_eq, h]
  · exact congrArg current

theorem next_eq_add (h : Over b e it) : it.next = it.add 1 := by
  have hindex : it.next.index = (it.addAssign 1).index := by
    rw [(at_next h).index, (at_addAssign h 1).index]
  exact (at_next h).toOver.ext_mod (at_addAssign h 1).toOver (congrArg (· % (e -ᵥ b)) hindex)

theorem prev_eq_sub (h : Over b e it) : it.prev = it.sub 1 := by
  have hindex : it.prev.index = (it.addAssign (-1)).index := by
    rw [(at_prev h).index, (at_addAssign h (-1)).index, Int.sub_eq_add_neg]
  exact (at_prev h).toOver.ext_mod (at_addAssign h (-1)).toOver (congrArg (· % (e -ᵥ b)) hindex)

/-- What holds of the iterators over the range from `b` to `e`. -/
structure Laws (α : Type) (b e : I) : Prop where
  same : ∀ p q, Over b e p → Over b e q → (p.same q = true ↔ p = q)
  inside : ∀ it, Over b e it → ∀ moves : List Move, Over b e (moves.foldl move it)
  add_zero : ∀ it, Over b e it → it.add 0 = it
  add_add : ∀ it, Over b e it → ∀ x y, (it.add x).add y = it.add (x + y)
  next : ∀ it, Over b e it → it.next = it.add 1
  prev : ∀ it, Over b e it → it.prev = it.sub 1
  add_mul : ∀ it, Over b e it → ∀ k, it.add ((e -ᵥ b) * k) = it
  subscript : ∀ it, Over b e it → ∀ (values : I → α) k,
    it.subscript values k = (it.add k).deref values
  diff : ∀ p q, Over b e p → Over b e q →
    0 ≤ p.diff q ∧ p.diff q < e -ᵥ b ∧ q.add (p.diff q) = p

/-- **Arithmetic of circular iterators** over a range that is not empty. -/
theorem circularIterator_laws (hrange : 0 < e -ᵥ b) :
    (∀ current, 0 ≤ current -ᵥ b → current -ᵥ b ≤ e -ᵥ b → Over b e (new b e current)) ∧
      Over b e (ofRange b e) ∧ (e = (1 : ℤ) +ᵥ b → Over b e (stagnant b)) ∧ Laws α b e := by
  refine ⟨fun current => over_new hrange, over_ofRange hrange, fun he => he ▸ over_stagnant b, ?_⟩
  constructor
  case same => exact fun p q hp hq => same_iff hp hq
  case inside => exact fun it h moves => over_moves h moves
  case add_zero => exact fun it h => add_zero_eq h
  case add_add => exact fun it h x y => add_add_eq h x y
  case next => exact fun it h => next_eq_add h
  case prev => exact fun it h => prev_eq_sub h
  case add_mul => exact fun it h k => add_mul_eq h k
  case subscript => exact fun it _ values k => rfl
  case diff =>
    intro p q hp hq
    obtain ⟨hnonneg, hlt⟩ := diff_mem hp hq
    exact ⟨hnonneg, hlt, add_diff_eq hp hq⟩

theorem circularIterator_laws_three : 0 < (⟨3⟩ : Pointer) -ᵥ ⟨0⟩ ∧
    (∀ current : Pointer, 0 ≤ current -ᵥ ⟨0⟩ → current -ᵥ ⟨0⟩ ≤ (⟨3⟩ : Pointer) -ᵥ ⟨0⟩ →
      Over ⟨0⟩ ⟨3⟩ (new ⟨0⟩ ⟨3⟩ current)) ∧
    Over ⟨0⟩ ⟨3⟩ (ofRange (⟨0⟩ : Pointer) ⟨3⟩) ∧
    ((⟨3⟩ : Pointer) = (1 : ℤ) +ᵥ ⟨0⟩ → Over ⟨0⟩ ⟨3⟩ (stagnant (⟨0⟩ : Pointer))) ∧
    Laws ℕ (⟨0⟩ : Pointer) ⟨3⟩ :=
  ⟨by decide, circularIterator_laws (by decide)⟩

end Apf.CircularIterator
