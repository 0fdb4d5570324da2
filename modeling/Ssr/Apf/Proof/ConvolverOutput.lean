import Ssr.Apf.ConvolverOutput
import Mathlib.Algebra.Ring.Int.Defs

/-!
# Exchange of filters

`transformNested_dense`: combining two filters respects the flags of their partitions.

An `exchange` is one step of a user of `Output`: the queues are rotated unless they are empty, and
then there may be a new filter. `Output.Holds` says what is in the pointers and in the queues after
the exchanges of `past`. A rotation is an exchange without a filter, and so is doing nothing while
the queues are empty, because everything that waits in one queue is also in the last one.
-/

set_option autoImplicit false

namespace Apf.Conv

/-! ## Nested transforms -/

section
variable {α : Type} [Zero α]

/-- The data that a node stands for. -/
def FftNode.dense (node : FftNode α) : Buffer α := if node.zero then fun _ => 0 else node.data

/-- The data of the partition `i`; a missing partition is zero. -/
def dense (filter : List (FftNode α)) (i : ℕ) : Buffer α :=
  match filter[i]? with
  | none => fun _ => 0
  | some node => node.dense

theorem transformNested_length (f : α → α → α) (in1 in2 out : List (FftNode α)) :
    (transformNested f in1 in2 out).length = out.length := by
  induction out generalizing in1 in2 with
  | nil => rfl
  | cons result out ih =>
    rw [transformNested, List.length_cons, List.length_cons, ih]

theorem dense_succ (filter : List (FftNode α)) (i : ℕ) :
    dense filter (i + 1) = dense filter.tail i := by
  rw [dense, dense, List.getElem?_tail]

theorem dense_zero (filter : List (FftNode α)) (m : ℕ) :
    dense filter 0 m = ((filter.head?.filter (!·.zero)).map fun node => node.data m).getD 0 := by
  cases filter with
  | nil => rfl
  | cons node filter =>
    rw [List.head?_cons, Option.filter_some, dense, List.getElem?_cons_zero]
    cases h : node.zero with
    | false => simp [FftNode.dense, h]
    | true => simp [FftNode.dense, h]

/-- **The nested transform respects the flags**: every partition of the result stands for the
combination of what the two partitions stand for. -/
theorem transformNested_dense (f : α → α → α) (hf : f 0 0 = 0) (in1 in2 out : List (FftNode α)) :
    (transformNested f in1 in2 out).length = out.length ∧
      ∀ i < out.length, ∀ m,
        dense (transformNested f in1 in2 out) i m = f (dense in1 i m) (dense in2 i m) := by
  refine ⟨transformNested_length f in1 in2 out, fun i hi m => ?_⟩
  induction out generalizing in1 in2 i with
  | nil => cases hi
  | cons result out ih =>
    cases i with
    | succ i =>
      rw [dense_succ, dense_succ, dense_succ, transformNested, List.tail_cons]
      exact ih in1.tail in2.tail i (Nat.lt_of_succ_lt_succ hi)
    | zero =>
      rw [dense_zero in1, dense_zero in2, transformNested, dense, List.getElem?_cons_zero]
      cases in1.head?.filter (!·.zero) with
      | none =>
        cases in2.head?.filter (!·.zero) with
        | none => exact hf.symm
        | some it2 => rfl
      | some it1 =>
        cases in2.head?.filter (!·.zero) with
        | none => rfl
        | some it2 => rfl

/-- Two partitions on one side, none on the other. -/
theorem transformNested_dense_sub :
    (transformNested (fun x y : ℤ => x - y) [⟨fun _ => 3, false⟩, ⟨fun _ => 7, true⟩] []
      [.new, .new]).length = 2 ∧
      ∀ i < 2, ∀ m, dense (transformNested (fun x y : ℤ => x - y)
        [⟨fun _ => 3, false⟩, ⟨fun _ => 7, true⟩] [] [.new, .new]) i m =
          dense [⟨fun _ => 3, false⟩, ⟨fun _ => 7, true⟩] i m - dense [] i m :=
  transformNested_dense (fun x y : ℤ => x - y) (by decide) _ _ _

end

/-! ## Exchange of filters -/

variable {π : Type} {e : π} {partitions : ℕ} {o : Output π} {past : List (Option (List π))}

/-- The newest filter of `past`, a list of exchanges that begins with the last one. -/
def newestFilter (past : List (Option (List π))) : Option (List π) := past.findSome? id

/-- Its partition `k`. -/
def newestPartition (e : π) (k : ℕ) (past : List (Option (List π))) : π :=
  ((newestFilter past).bind fun filter => filter[k]?).getD e

/-- What an exchange puts into the queue `i`. -/
def pending (e : π) (i : ℕ) (exchange : Option (Option (List π))) : Option π :=
  exchange.join.map fun filter => filter[i + 1]?.getD e

namespace Output

/-- One step of a user: rotate the queues if that is necessary, then set the filter if there is a
new one. -/
def exchange (o : Output π) (filter : Option (List π)) : Output π :=
  let o := if o.queuesEmpty then o else o.rotateQueues
  match filter with
  | none => o
  | some filter => o.setFilter filter

/-- The state of `o` after the exchanges of `past`: the entry `j` of the queue `i` has waited for
`i - j` exchanges. -/
structure Holds (e : π) (partitions : ℕ) (o : Output π)
    (past : List (Option (List π))) : Prop where
  empty : o.emptyPartition = e
  filterPtrs : o.filterPtrs =
    (List.range partitions).map fun k => newestPartition e k (past.drop k)
  queues : o.queues = (List.range (partitions - 1)).map fun i =>
    (List.range (i + 1)).map fun j => pending e i past[i - j]?

end Output

theorem newestPartition_none (k : ℕ) :
    newestPartition e k (none :: past) = newestPartition e k past := rfl

/-- The front of a queue decides about the change of the pointer. -/
theorem newestPartition_drop (i : ℕ) :
    newestPartition e (i + 1) (past.drop i) =
      (pending e i past[i]?).getD
        (newestPartition e (i + 1) (past.drop (i + 1))) := by
  cases h : past[i]? with
  | none =>
    rw [List.getElem?_eq_none_iff] at h
    rw [List.drop_eq_nil_of_le h, List.drop_eq_nil_of_le (Nat.le_succ_of_le h)]
    rfl
  | some exchange =>
    obtain ⟨hi, rfl⟩ := List.getElem?_eq_some_iff.1 h
    rw [List.drop_eq_getElem_cons hi]
    cases past[i] with
    | none => rfl
    | some filter => rfl

namespace Output

theorem new_holds : (Output.new e partitions).Holds e partitions [] where
  empty := rfl
  filterPtrs := by
    simp [new, newestPartition, newestFilter, List.map_const']
  queues := by
    simp [new, pending, List.map_const']

/-- The pointers that a rotation leaves for the partitions that have queues. -/
theorem rotateTargets_eq (indices : List ℕ) :
    rotateTargets
        (indices.map fun i => newestPartition e (i + 1) (past.drop (i + 1)))
        (indices.map fun i => (List.range (i + 1)).map fun j => pending e i past[i - j]?) =
      indices.map fun i => newestPartition e (i + 1) (past.drop i) := by
  induction indices with
  | nil => rfl
  | cons i indices ih =>
    rw [List.map_cons, List.map_cons, List.map_cons, rotateTargets, ih, newestPartition_drop]
    congr 2
    rw [List.head?_map, List.head?_range, if_neg (Nat.succ_ne_zero i)]
    rfl

theorem rotateQueues_holds (h : o.Holds e partitions past) :
    o.rotateQueues.Holds e partitions (none :: past) where
  empty := h.empty
  filterPtrs := by
    simp only [rotateQueues, h.filterPtrs, h.queues]
    cases partitions with
    | zero => rfl
    | succ n =>
      rw [List.range_succ_eq_map, List.map_cons, List.map_cons, List.map_map, List.map_map]
      exact congrArg _ (rotateTargets_eq (List.range n))
  queues := by
    simp only [rotateQueues, h.queues, List.map_map]
    refine List.map_congr_left fun i _ => ?_
    rw [Function.comp, List.range_succ_eq_map, List.map_cons, List.tail_cons, List.map_map,
      ← List.range_succ_eq_map, List.range_succ, List.map_append, List.map_singleton, Nat.sub_self]
    congr 1
    refine List.map_congr_left fun j hj => ?_
    obtain ⟨d, rfl⟩ := Nat.exists_eq_add_of_lt (List.mem_range.1 hj)
    rw [Function.comp, show j + d + 1 - j = d + 1 by omega, show j + d + 1 - j.succ = d by omega,
      List.getElem?_cons_succ]

theorem setFilter_holds (h : o.Holds e partitions (none :: past)) {filter : List π}
    (hne : filter ≠ []) : (o.setFilter filter).Holds e partitions (some filter :: past) where
  empty := h.empty
  filterPtrs := by
    simp only [setFilter, h.filterPtrs]
    cases filter with
    | nil => exact absurd rfl hne
    | cons partition filter =>
      cases partitions with
      | zero => rfl
      | succ n =>
        rw [List.range_succ_eq_map, List.map_cons, List.map_cons, List.map_map, List.map_map]
        rfl
  queues := by
    simp only [setFilter, h.queues, h.empty]
    refine List.ext_getElem (by simp) fun i _ _ => ?_
    simp only [List.getElem_mapIdx, List.getElem_map, List.getElem_range]
    refine List.ext_getElem (by simp) fun j _ hj => ?_
    rw [List.length_map, List.length_range] at hj
    simp only [List.getElem_set, List.getElem_map, List.getElem_range]
    split
    · rename_i hij
      rw [hij, Nat.sub_self]
      rfl
    · rename_i hij
      have hlt : j < i := Nat.lt_of_le_of_ne (Nat.le_of_lt_succ hj) (Ne.symm hij)
      obtain ⟨d, rfl⟩ := Nat.exists_eq_add_of_lt hlt
      rw [show j + d + 1 - j = d + 1 by omega, List.getElem?_cons_succ, List.getElem?_cons_succ]

theorem Holds.queuesEmpty_iff (h : o.Holds e partitions past) :
    o.queuesEmpty = true ↔ ∀ i < partitions - 1, past[i]?.join = none := by
  rw [queuesEmpty, h.queues]
  cases partitions - 1 with
  | zero => simp
  | succ n =>
    rw [List.range_succ, List.map_append, List.map_singleton, List.getLast?_concat]
    simp only [List.all_map, List.all_eq_true, List.mem_range, Function.comp, pending,
      Option.isNone_iff_eq_none, Option.map_eq_none_iff]
    constructor
    · intro hall i hi
      simpa [show n - (n - i) = i by omega] using hall (n - i) (by omega)
    · exact fun hall j hj => hall (n - j) (by omega)

/-- There is nothing in the queues if there is nothing in the last one. -/
theorem Holds.queues_none_iff (h : o.Holds e partitions past) :
    (∀ queue ∈ o.queues, ∀ entry ∈ queue, entry = none) ↔
      ∀ i < partitions - 1, past[i]?.join = none := by
  simp only [h.queues, List.mem_map, List.mem_range, forall_exists_index, and_imp,
    forall_apply_eq_imp_iff₂, pending, Option.map_eq_none_iff]
  constructor
  · intro hall i hi
    simpa using hall i hi 0 (Nat.succ_pos i)
  · exact fun hall i hi j hj => hall (i - j) (by omega)

/-- If the queues are empty then it makes no difference that they are not rotated. -/
theorem Holds.skip (h : o.Holds e partitions past)
    (hempty : ∀ i < partitions - 1, past[i]?.join = none) :
    o.Holds e partitions (none :: past) where
  empty := h.empty
  filterPtrs := by
    rw [h.filterPtrs]
    refine List.map_congr_left fun k hk => ?_
    rw [List.mem_range] at hk
    cases k with
    | zero => rfl
    | succ k =>
      rw [List.drop_succ_cons, newestPartition_drop, pending, hempty k (by omega)]
      rfl
  queues := by
    rw [h.queues]
    refine List.map_congr_left fun i hi => List.map_congr_left fun j hj => ?_
    rw [List.mem_range] at hi hj
    rw [pending, pending, hempty (i - j) (by omega)]
    cases hd : i - j with
    | zero => rfl
    | succ d => rw [List.getElem?_cons_succ, hempty d (by omega)]

/-- One block of a user who knows whether the queues are empty. -/
theorem Holds.update (h : o.Holds e partitions past) {queuesEmpty : Bool}
    (hempty : queuesEmpty = true → ∀ i < partitions - 1, past[i]?.join = none)
    {filter : Option (List π)} (hne : filter ≠ some []) :
    let o' := if queuesEmpty then o else o.rotateQueues
    (filter.elim o' o'.setFilter).Holds e partitions (filter :: past) := by
  intro o'
  have hrotate : o'.Holds e partitions (none :: past) := by
    cases queuesEmpty with
    | true => exact h.skip (hempty rfl)
    | false => exact rotateQueues_holds h
  cases filter with
  | none => exact hrotate
  | some filter => exact setFilter_holds hrotate fun hnil => hne (congrArg some hnil)

theorem exchange_holds (h : o.Holds e partitions past) {filter : Option (List π)}
    (hne : filter ≠ some []) : (o.exchange filter).Holds e partitions (filter :: past) := by
  have hupdate := h.update h.queuesEmpty_iff.1 hne
  cases filter with
  | none => exact hupdate
  | some filter => exact hupdate

/-- **Many exchanges.** -/
theorem exchanges_hold (filters : List (Option (List π))) (hne : ∀ f ∈ filters, f ≠ some [])
    (h : o.Holds e partitions past) :
    (filters.foldl exchange o).Holds e partitions (filters.reverse ++ past) := by
  induction filters generalizing o past with
  | nil => exact h
  | cons filter filters ih =>
    rw [List.foldl_cons, List.reverse_cons, List.append_assoc]
    exact ih (fun f hf => hne f (List.mem_cons_of_mem filter hf))
      (exchange_holds h (hne filter List.mem_cons_self))

/-- **The delayed exchange of filters**: after `t` exchanges the pointer `k` is that of the filter
which was the newest one after `t - k` exchanges, and there is nothing in the queues if and only if
`queuesEmpty` says so. -/
theorem exchanges_filterPtrs (e : π) (partitions : ℕ) (filters : List (Option (List π)))
    (hne : ∀ f ∈ filters, f ≠ some []) :
    let o := filters.foldl exchange (Output.new e partitions)
    o.filterPtrs.length = partitions ∧
      (∀ k < partitions, o.filterPtrs[k]? =
        some (newestPartition e k (filters.take (filters.length - k)).reverse)) ∧
      (o.queuesEmpty = true ↔ ∀ queue ∈ o.queues, ∀ entry ∈ queue, entry = none) := by
  intro o
  have hholds : o.Holds e partitions filters.reverse := by
    simpa using exchanges_hold filters hne new_holds
  refine ⟨by rw [hholds.filterPtrs, List.length_map, List.length_range], fun k hk => ?_,
    hholds.queuesEmpty_iff.trans hholds.queues_none_iff.symm⟩
  rw [hholds.filterPtrs, List.getElem?_map, List.getElem?_range hk, ← List.drop_reverse]
  rfl

/-- A filter that is replaced before its last partition has been taken over. -/
theorem exchanges_filterPtrs_three :
    let filters := [some [1, 2, 3], none, some [4]]
    let o := filters.foldl exchange (Output.new 0 3)
    o.filterPtrs = [4, 2, 3] ∧ o.filterPtrs.length = 3 ∧
      (∀ k < 3, o.filterPtrs[k]? =
        some (newestPartition 0 k (filters.take (filters.length - k)).reverse)) ∧
      (o.queuesEmpty = true ↔ ∀ queue ∈ o.queues, ∀ entry ∈ queue, entry = none) :=
  ⟨by decide, exchanges_filterPtrs 0 3 [some [1, 2, 3], none, some [4]] (by decide)⟩

end Output

end Apf.Conv
