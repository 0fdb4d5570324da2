import Ssr.Apf.CombineChannels

/-!
# Combining channels with interpolation (`apf/combine_channels.h`, `apf/math.h`)

`process` of `CombineChannelsInterpolation`. `φ` is the state of the function object; `select` may
change it, and the item. The samples of the output may be of another type than those of the items: a
`dual_iterator` writes pairs.
-/

set_option autoImplicit false

namespace Apf

/-- `linear_interpolator` -/
structure LinearInterpolator (T : Type) where
  first : T
  increment : T

namespace LinearInterpolator

variable {T : Type}

/-- The default constructor. -/
def new [Zero T] : LinearInterpolator T := { first := 0, increment := 0 }

/-- `set` -/
def range [Sub T] [Div T] (first last length : T) : LinearInterpolator T :=
  { first, increment := (last - first) / length }

/-- `operator()` -/
def call [Add T] [Mul T] (f : LinearInterpolator T) (x : T) : T := f.first + x * f.increment

end LinearInterpolator

namespace CombineChannels

variable {φ Item α β : Type} {n : ℕ}

/-- The function object: `operator()` with one argument, and with the index of the sample. -/
structure InterpolationObject (φ Item α β : Type) where
  select : φ → Item → φ × Item × CombineChannelsResult
  transform : φ → α → β
  interpolate : φ → α → α → β

section
variable [NatCast α] [Add β] (f : InterpolationObject φ Item α β) (samples : Item → Samples n α)

/-- The loop over the items, which returns the items as they are afterwards. -/
def interpolationLoop : φ → Target n β → List Item → Option (Target n β × List Item)
  | _, out, [] => some (out, [])
  | w, out, item :: items =>
    let (w, item, selection) := f.select w item
    match selection with
    | .nothing => (interpolationLoop w out items).map fun r => (r.1, item :: r.2)
    -- `case_one`
    | .constant =>
      let out := out.put fun i => f.transform w (samples item i)
      (interpolationLoop w out items).map fun r => (r.1, item :: r.2)
    -- `case_two`
    | .change =>
      let out := out.put fun i => f.interpolate w (samples item i) (i : ℕ)
      (interpolationLoop w out items).map fun r => (r.1, item :: r.2)
    -- its assertion fails
    | .fadeIn => none
    | .fadeOut => none

/-- `CombineChannelsInterpolation::process` -/
def interpolation [Zero β] (w : φ) (items : List Item) (out : Target n β) :
    Option (Target n β × List Item) :=
  (interpolationLoop f samples w { out with accumulate := false } items).map fun r =>
    (if r.1.accumulate then r.1 else { r.1 with buffer := fun _ => 0 }, r.2)

end

end CombineChannels

end Apf
