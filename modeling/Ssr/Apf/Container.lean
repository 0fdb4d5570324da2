import Mathlib.Data.List.Infix
import Mathlib.Data.List.Forall2

/-!
# Distributing a list to many lists (`apf/container.h`)

`distribute_list` splices the elements of a list to the ends of as many target lists,
`undistribute_list` finds each element in its target list and splices it to a list of garbage.
Either of them throws before anything is moved if the sizes differ. All lists are part of the
result, also if there is an exception.
-/

set_option autoImplicit false

namespace Apf.Container

variable {α : Type}

structure Distributed (α : Type) where
  source : List α
  target : List (List α)
  error : Option String
  deriving DecidableEq, Repr

/-- The loop over the targets; `source` are the elements that have not been moved yet. -/
def distributeLoop : List α → List (List α) → List α × List (List α)
  | x :: source, out :: target =>
    let (rest, outs) := distributeLoop source target
    (rest, (out ++ [x]) :: outs)
  | source, target => (source, target)

def distributeList (source : List α) (target : List (List α)) : Distributed α :=
  if source.length ≠ target.length then
    { source, target, error := some "distribute_list: Different sizes!" }
  else
    let (source, target) := distributeLoop source target
    { source, target, error := none }

structure Undistributed (α : Type) where
  target : List (List α)
  garbage : List α
  error : Option String
  deriving DecidableEq, Repr

section
variable [DecidableEq α]

/-- The loop over the targets, which ends at the first element that is not found. -/
def undistributeLoop : List α → List (List α) → List α → Undistributed α
  | x :: source, out :: target, garbage =>
    if x ∈ out then
      let r := undistributeLoop source target (garbage ++ [x])
      { r with target := out.erase x :: r.target }
    else
      { target := out :: target, garbage
        error := some "undistribute_list(): Element not found!" }
  | _, target, garbage => { target, garbage, error := none }

def undistributeList (source : List α) (target : List (List α)) (garbage : List α) :
    Undistributed α :=
  if source.length ≠ target.length then
    { target, garbage, error := some "undistribute_list(): Different sizes!" }
  else undistributeLoop source target garbage

end

/-! ## distribute_list -/

theorem distributeLoop_eq {source : List α} {target : List (List α)}
    (h : source.length = target.length) : distributeLoop source target =
      ([], List.zipWith (fun x out => out ++ [x]) source target) := by
  induction source generalizing target with
  | nil =>
    rw [List.length_eq_zero_iff.1 h.symm]
    rfl
  | cons x source ih =>
    cases target with
    | nil => cases h
    | cons out target => rw [distributeLoop, ih (Nat.succ.inj h), List.zipWith_cons_cons]

theorem distributeList_eq {source : List α} {target : List (List α)}
    (h : source.length = target.length) : distributeList source target =
      { source := []
        target := List.zipWith (fun x out => out ++ [x]) source target
        error := none } := by
  rw [distributeList, if_neg (not_not.2 h), distributeLoop_eq h]

theorem distributeList_of_length_ne {source : List α} {target : List (List α)}
    (h : source.length ≠ target.length) : distributeList source target =
      { source, target, error := some "distribute_list: Different sizes!" } := if_pos h

/-! ## undistribute_list -/

variable [DecidableEq α]

/-- After `k` rounds the first `k` elements have been moved, and nothing else. -/
structure Moved (source : List α) (target : List (List α)) (garbage : List α)
    (r : Undistributed α) (k : ℕ) : Prop where
  le : k ≤ source.length
  found : List.Forall₂ (· ∈ ·) (source.take k) (target.take k)
  garbage : r.garbage = garbage ++ source.take k
  target : r.target =
    List.zipWith (fun x out => out.erase x) (source.take k) (target.take k) ++ target.drop k
  error : r.error = none ↔ k = source.length

theorem undistributeLoop_moved {source : List α} {target : List (List α)} {garbage : List α}
    (h : source.length = target.length) :
    ∃ k, Moved source target garbage (undistributeLoop source target garbage) k := by
  induction source generalizing target garbage with
  | nil =>
    rw [List.length_eq_zero_iff.1 h.symm]
    exact ⟨0, le_refl 0, .nil, (List.append_nil garbage).symm, rfl, by simp [undistributeLoop]⟩
  | cons x source ih =>
    cases target with
    | nil => cases h
    | cons out target =>
      rw [undistributeLoop]
      split
      · rename_i hx
        obtain ⟨k, hk⟩ := @ih target (garbage ++ [x]) (Nat.succ.inj h)
        refine ⟨k + 1, Nat.succ_le_succ hk.le, .cons hx hk.found, ?_, ?_, ?_⟩
        · rw [hk.garbage, List.append_assoc, List.take_succ_cons, List.singleton_append]
        · dsimp only
          rw [hk.target]
          rfl
        · rw [hk.error, List.length_cons, Nat.add_right_cancel_iff]
      · exact ⟨0, Nat.zero_le _, .nil, (List.append_nil garbage).symm, rfl, by simp⟩

theorem undistributeList_of_length_ne {source : List α} {target : List (List α)}
    {garbage : List α} (h : source.length ≠ target.length) :
    undistributeList source target garbage =
      { target, garbage, error := some "undistribute_list(): Different sizes!" } := if_pos h

theorem undistributeList_moved {source : List α} {target : List (List α)} {garbage : List α}
    (h : source.length = target.length) :
    ∃ k, Moved source target garbage (undistributeList source target garbage) k := by
  rw [undistributeList, if_neg (not_not.2 h)]
  exact undistributeLoop_moved h

/-- Every element is in its list. -/
theorem undistributeList_eq {source : List α} {target : List (List α)} {garbage : List α}
    (h : List.Forall₂ (· ∈ ·) source target) : undistributeList source target garbage =
      { target := List.zipWith (fun x out => out.erase x) source target
        garbage := garbage ++ source
        error := none } := by
  rw [undistributeList, if_neg (not_not.2 h.length_eq)]
  induction h generalizing garbage with
  | nil => simp [undistributeLoop]
  | cons hx _ ih =>
    rw [undistributeLoop, if_pos hx, ih]
    simp

end Apf.Container
