import Ssr.Apf.Crossfade
import Mathlib.Algebra.Ring.Defs

/-!
# Combining channels (`apf/combine_channels.h`)

`process` of `CombineChannelsCrossfade` and `CombineChannelsCrossfadeCopy`. All blocks have `n`
samples. `ω` is the state of the function object and of the items: `select` and `update` may change
it, and the samples of an item depend on it.
-/

set_option autoImplicit false

namespace Apf.CombineChannels

variable {ω Item α : Type} {n : ℕ}

abbrev Samples (n : ℕ) (α : Type) := Fin n → α

/-- The "special" function object. -/
structure FunctionObject (ω Item : Type) where
  select : ω → Item → ω × CombineChannelsResult
  /-- called for the item that has been selected -/
  update : ω → Item → ω

/-- What `case_one` and `case_two` get from an item: its samples, transformed or not, and the same
with `fade_out_tag`. -/
structure Signals (ω Item : Type) (n : ℕ) (α : Type) where
  samples : ω → Item → Samples n α
  fadeOutSamples : ω → Item → Samples n α

/-- The values of a `Crossfade`. -/
structure Fade (n : ℕ) (α : Type) where
  fadeOut : Samples n α
  fadeIn : Samples n α

/-- A buffer that the first signal overwrites; further signals are added. -/
structure Target (n : ℕ) (α : Type) where
  buffer : Samples n α
  accumulate : Bool

def Target.put [Add α] (t : Target n α) (signal : Samples n α) : Target n α :=
  if t.accumulate then { t with buffer := fun i => t.buffer i + signal i }
  else { buffer := signal, accumulate := true }

/-- The output and the members of `CombineChannelsCrossfadeBase`. -/
structure Buffers (n : ℕ) (α : Type) where
  out : Target n α
  fadeOut : Target n α
  fadeIn : Target n α

section
variable [Semiring α]

/-- `before_the_loop`, and `_accumulate` of the base class. -/
def beforeTheLoop (b : Buffers n α) : Buffers n α :=
  { out := { b.out with accumulate := false }
    fadeOut := { b.fadeOut with accumulate := false }
    fadeIn := { b.fadeIn with accumulate := false } }

/-- `after_the_loop` -/
def afterTheLoop (fade : Fade n α) (b : Buffers n α) : Buffers n α :=
  let b :=
    if b.fadeOut.accumulate then
      { b with out := b.out.put fun i => b.fadeOut.buffer i * fade.fadeOut i }
    else b
  if b.fadeIn.accumulate then
    { b with out := b.out.put fun i => b.fadeIn.buffer i * fade.fadeIn i }
  else b

variable (f : FunctionObject ω Item) (signals : Signals ω Item n α)

/-- `case_two` -/
def caseTwo (selection : CombineChannelsResult) (item : Item) (s : ω × Buffers n α) :
    ω × Buffers n α :=
  let s :=
    if selection ≠ .fadeIn then
      (s.1, { s.2 with fadeOut := s.2.fadeOut.put (signals.fadeOutSamples s.1 item) })
    else s
  if selection ≠ .fadeOut then
    let w := f.update s.1 item
    (w, { s.2 with fadeIn := s.2.fadeIn.put (signals.samples w item) })
  else s

/-- The body of the loop. -/
def processItem (s : ω × Buffers n α) (item : Item) : ω × Buffers n α :=
  let (w, selection) := f.select s.1 item
  match selection with
  | .nothing => (w, s.2)
  -- `case_one`
  | .constant => (w, { s.2 with out := s.2.out.put (signals.samples w item) })
  | selection => caseTwo f signals selection item (w, s.2)

/-- `process` -/
def process (fade : Fade n α) (items : List Item) (w : ω) (b : Buffers n α) : ω × Buffers n α :=
  let (w, b) := items.foldl (processItem f signals) (w, beforeTheLoop b)
  let b := afterTheLoop fade b
  if b.out.accumulate then (w, b) else (w, { b with out := { b.out with buffer := fun _ => 0 } })

/-- `CombineChannelsCrossfadeCopy::process`: the samples of the items are copied. -/
def crossfadeCopy (samples : ω → Item → Samples n α) (fade : Fade n α) (items : List Item) (w : ω)
    (b : Buffers n α) : ω × Buffers n α :=
  process f { samples, fadeOutSamples := samples } fade items w b

/-- `CombineChannelsCrossfade::process`: the samples of the items are transformed by the function
object. -/
def crossfade (samples : ω → Item → Samples n α) (transform fadeOutTransform : ω → α → α)
    (fade : Fade n α) (items : List Item) (w : ω) (b : Buffers n α) : ω × Buffers n α :=
  let signals := {
    samples := fun w item i => transform w (samples w item i)
    fadeOutSamples := fun w item i => fadeOutTransform w (samples w item i) }
  process f signals fade items w b

end

end Apf.CombineChannels
