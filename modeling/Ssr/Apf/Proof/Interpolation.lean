import Ssr.Apf.Interpolation
import Ssr.Apf.Proof.CombineChannels
import Ssr.Lib.Ramp

/-!
# The mix of interpolated channels

`Selects` says which signal the function object takes from each item, by whatever selection; the
output is the sum of these signals (`interpolation_eq`).
-/

set_option autoImplicit false

namespace Apf

open Lib

/-- The interpolator is the line between two values. -/
theorem LinearInterpolator.range_call {T : Type} [Field T] (b : ℕ) (first last : T) (i : ℕ) :
    (LinearInterpolator.range first last (b : T)).call i = ramp b first last i := rfl

namespace CombineChannels

variable {φ Item α β : Type} {n : ℕ} [NatCast α] [Semiring β]

/-- The function object turns an item into `next item` and takes `signal item` from it. -/
def Selects (f : InterpolationObject φ Item α β) (samples : Item → Samples n α)
    (next : Item → Item) (signal : Item → Samples n β) (item : Item) : Prop :=
  ∀ w, (f.select w item).2.1 = next item ∧
    match (f.select w item).2.2 with
    | .nothing => signal item = fun _ => 0
    | .constant => signal item =
      fun i => f.transform (f.select w item).1 (samples (next item) i)
    | .change => signal item =
      fun i => f.interpolate (f.select w item).1 (samples (next item) i) (i : ℕ)
    | .fadeIn => False
    | .fadeOut => False

variable {f : InterpolationObject φ Item α β} {samples : Item → Samples n α} {next : Item → Item}
  {signal : Item → Samples n β}

/-- The selection of a renderer that compares the old weight of an item with the new one. -/
theorem selects_ramp {T : Type} [Field T] [DecidableEq T] {f : InterpolationObject φ Item T T}
    {samples : Item → Samples n T} {next : Item → Item} {item : Item} {old new : T}
    {constant change : φ → φ}
    (hselect : ∀ w, f.select w item =
      if old = 0 ∧ new = 0 then (w, next item, .nothing)
      else if old = new then (constant w, next item, .constant)
      else (change w, next item, .change))
    (htransform : ∀ w x, f.transform (constant w) x = x * new)
    (hinterpolate : ∀ w x (i : ℕ), f.interpolate (change w) x (i : T) =
      x * (LinearInterpolator.range old new (n : T)).call (i : T))
    {signal : Item → Samples n T}
    (hsignal : signal item = fun i => samples (next item) i * ramp n old new i) :
    Selects f samples next signal item := by
  intro w
  rw [hselect, hsignal]
  by_cases hsilent : old = 0 ∧ new = 0
  · rw [if_pos hsilent]
    refine ⟨rfl, funext fun i => ?_⟩
    rw [hsilent.1, hsilent.2, ramp_self, mul_zero]
  rw [if_neg hsilent]
  by_cases heq : old = new
  · rw [if_pos heq]
    refine ⟨rfl, funext fun i => ?_⟩
    rw [htransform, heq, ramp_self]
  · rw [if_neg heq]
    refine ⟨rfl, funext fun i => ?_⟩
    rw [hinterpolate, LinearInterpolator.range_call]

theorem interpolationLoop_eq {items : List Item}
    (h : ∀ item ∈ items, Selects f samples next signal item) (w : φ) (out : Target n β) :
    ∃ out', interpolationLoop f samples w out items = some (out', items.map next) ∧
      ∀ i, out'.value i = out.value i + (items.map fun item => signal item i).sum := by
  induction items generalizing w out with
  | nil => exact ⟨out, rfl, fun i => by simp⟩
  | cons item items ih =>
    obtain ⟨hnext, hselect⟩ := h item List.mem_cons_self w
    have hrest := fun w' out' => ih (fun item hitem => h item (List.mem_cons_of_mem _ hitem)) w' out'
    rw [interpolationLoop]
    generalize f.select w item = r at hnext hselect ⊢
    obtain ⟨w', item', selection⟩ := r
    obtain rfl : item' = next item := hnext
    cases selection with
    | nothing =>
      obtain ⟨out', heq, hvalue⟩ := hrest w' out
      refine ⟨out', by simp [heq], fun i => ?_⟩
      rw [hvalue, List.map_cons, List.sum_cons, show signal item = _ from hselect, zero_add]
    | constant =>
      obtain ⟨out', heq, hvalue⟩ :=
        hrest w' (out.put fun i => f.transform w' (samples (next item) i))
      refine ⟨out', by simp [heq], fun i => ?_⟩
      rw [hvalue, Target.put_value, List.map_cons, List.sum_cons, show signal item = _ from hselect,
        add_assoc]
    | change =>
      obtain ⟨out', heq, hvalue⟩ :=
        hrest w' (out.put fun i => f.interpolate w' (samples (next item) i) (i : ℕ))
      refine ⟨out', by simp [heq], fun i => ?_⟩
      rw [hvalue, Target.put_value, List.map_cons, List.sum_cons, show signal item = _ from hselect,
        add_assoc]
    | fadeIn => exact hselect.elim
    | fadeOut => exact hselect.elim

/-- **The mix**: the sum of the signals that are taken from the items. -/
theorem interpolation_eq {items : List Item}
    (h : ∀ item ∈ items, Selects f samples next signal item) (w : φ) (out : Target n β) :
    ∃ out', interpolation f samples w items out = some (out', items.map next) ∧
      out'.buffer = fun i => (items.map fun item => signal item i).sum := by
  obtain ⟨out', heq, hvalue⟩ := interpolationLoop_eq h w { out with accumulate := false }
  rw [interpolation, heq]
  refine ⟨_, rfl, funext fun i => ?_⟩
  have hstart : Target.value { out with accumulate := false } i = 0 := rfl
  have hsum : (items.map fun item => signal item i).sum = out'.value i := by
    rw [hvalue i, hstart, zero_add]
  rw [hsum, Target.value]
  cases out'.accumulate with
  | false => rfl
  | true => rfl

end CombineChannels

end Apf
