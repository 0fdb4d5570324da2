import Ssr.Apf.CombineChannels
import Mathlib.Algebra.BigOperators.Group.List.Basic
import Mathlib.Tactic.Abel

/-!
# The mix of the channels

A `Target` stands for zeros until the first signal is put into it (`Target.value`), so each signal
adds to its value. `contributions` are the signals that the items give one after the other, and
`mix` is their sum, with the fades.
-/

set_option autoImplicit false

namespace Apf.CombineChannels

variable {ω Item α : Type} {n : ℕ}

/-! ## What the output should be -/

/-- The signals of an item. -/
structure Contribution (n : ℕ) (α : Type) where
  constant : Option (Samples n α)
  old : Option (Samples n α)
  new : Option (Samples n α)

section
variable (f : FunctionObject ω Item) (signals : Signals ω Item n α)

/-- The contribution of an item: what it is before and after the update, if that is selected. -/
def contribution (w : ω) (item : Item) : ω × Contribution n α :=
  let (w, selection) := f.select w item
  let w' := f.update w item
  let old := some (signals.fadeOutSamples w item)
  let new := some (signals.samples w' item)
  match selection with
  | .nothing => (w, { constant := none, old := none, new := none })
  | .constant => (w, { constant := some (signals.samples w item), old := none, new := none })
  | .change => (w', { constant := none, old, new })
  | .fadeIn => (w', { constant := none, old := none, new })
  | .fadeOut => (w, { constant := none, old, new := none })

def contributions : ω → List Item → List (Contribution n α)
  | _, [] => []
  | w, item :: items =>
    (contribution f signals w item).2 :: contributions (contribution f signals w item).1 items

end

variable [Semiring α]

/-- The sum of some signals. -/
def total (signals : List (Samples n α)) : Samples n α := fun i => (signals.map fun x => x i).sum

/-- The constant signals, the old signals with the fade-out and the new signals with the fade-in. -/
def mix (fade : Fade n α) (contributions : List (Contribution n α)) : Samples n α := fun i =>
  total (contributions.filterMap Contribution.constant) i +
    total (contributions.filterMap Contribution.old) i * fade.fadeOut i +
    total (contributions.filterMap Contribution.new) i * fade.fadeIn i

/-- What one item adds to the mix. -/
def Contribution.value (fade : Fade n α) (c : Contribution n α) : Samples n α := fun i =>
  (c.constant.elim 0 fun x => x i) + (c.old.elim 0 fun x => x i) * fade.fadeOut i +
    (c.new.elim 0 fun x => x i) * fade.fadeIn i

theorem total_cons (signal : Contribution n α → Option (Samples n α)) (c : Contribution n α)
    (cs : List (Contribution n α)) (i : Fin n) :
    total ((c :: cs).filterMap signal) i =
      ((signal c).elim 0 fun x => x i) + total (cs.filterMap signal) i := by
  rw [List.filterMap_cons]
  cases signal c with
  | none => exact (zero_add _).symm
  | some x => rfl

/-- The mix, item by item. -/
theorem mix_eq_sum (fade : Fade n α) (cs : List (Contribution n α)) (i : Fin n) :
    mix fade cs i = (cs.map fun c => c.value fade i).sum := by
  induction cs with
  | nil => simp [mix, total]
  | cons c cs ih =>
    rw [List.map_cons, List.sum_cons, ← ih, mix, mix, total_cons, total_cons, total_cons,
      Contribution.value, add_mul, add_mul]
    abel

/-! ## Lazily initialised buffers -/

/-- What is in the buffer, if it has been used. -/
def Target.value (t : Target n α) : Samples n α := if t.accumulate then t.buffer else fun _ => 0

/-- Put a signal that may be missing. -/
def Target.add (t : Target n α) (signal : Option (Samples n α)) : Target n α := signal.elim t t.put

/-- Put the signals of an item. -/
def Buffers.add (b : Buffers n α) (c : Contribution n α) : Buffers n α :=
  { out := b.out.add c.constant, fadeOut := b.fadeOut.add c.old, fadeIn := b.fadeIn.add c.new }

theorem Target.put_value (t : Target n α) (signal : Samples n α) (i : Fin n) :
    (t.put signal).value i = t.value i + signal i := by
  cases h : t.accumulate with
  | false => simp [put, value, h]
  | true => simp [put, value, h]

/-- A fade of nothing adds nothing. -/
theorem Target.put_faded_value (t used : Target n α) (fade : Samples n α) (i : Fin n) :
    (if used.accumulate then t.put fun i => used.buffer i * fade i else t).value i =
      t.value i + used.value i * fade i := by
  cases h : used.accumulate with
  | false => simp [value, h]
  | true =>
    have hvalue : used.value i = used.buffer i := by simp [value, h]
    rw [if_pos rfl, put_value, hvalue]

theorem Target.add_value (t : Target n α) {c : Contribution n α}
    (signal : Contribution n α → Option (Samples n α)) (cs : List (Contribution n α)) (i : Fin n) :
    (t.add (signal c)).value i + total (cs.filterMap signal) i =
      t.value i + total ((c :: cs).filterMap signal) i := by
  rw [List.filterMap_cons]
  cases signal c with
  | none => rfl
  | some x =>
    have hput : (t.add (some x)).value i = t.value i + x i := t.put_value x i
    rw [hput, total, total, List.map_cons, List.sum_cons, add_assoc]

/-! ## The loop -/

section
variable (f : FunctionObject ω Item) (signals : Signals ω Item n α)

/-- One item. -/
theorem processItem_eq (w : ω) (b : Buffers n α) (item : Item) :
    processItem f signals (w, b) item =
      ((contribution f signals w item).1, b.add (contribution f signals w item).2) := by
  unfold processItem contribution caseTwo
  generalize f.select w item = r
  obtain ⟨w', selection⟩ := r
  cases selection with
  | nothing => rfl
  | constant => rfl
  | change => rfl
  | fadeIn => rfl
  | fadeOut => rfl

/-- **All items.** -/
theorem foldl_processItem (items : List Item) (w : ω) (b : Buffers n α) (i : Fin n) :
    let b' := (items.foldl (processItem f signals) (w, b)).2
    let cs := contributions f signals w items
    b'.out.value i = b.out.value i + total (cs.filterMap Contribution.constant) i ∧
      b'.fadeOut.value i = b.fadeOut.value i + total (cs.filterMap Contribution.old) i ∧
      b'.fadeIn.value i = b.fadeIn.value i + total (cs.filterMap Contribution.new) i := by
  induction items generalizing w b with
  | nil => simp [contributions, total]
  | cons item items ih =>
    rw [List.foldl_cons, processItem_eq, contributions]
    obtain ⟨hout, hfadeOut, hfadeIn⟩ :=
      ih (contribution f signals w item).1 (b.add (contribution f signals w item).2)
    exact ⟨hout.trans (b.out.add_value ..), hfadeOut.trans (b.fadeOut.add_value ..),
      hfadeIn.trans (b.fadeIn.add_value ..)⟩

theorem afterTheLoop_value (fade : Fade n α) (b : Buffers n α) (i : Fin n) :
    (afterTheLoop fade b).out.value i = b.out.value i + b.fadeOut.value i * fade.fadeOut i +
      b.fadeIn.value i * fade.fadeIn i := by
  let out :=
    if b.fadeOut.accumulate then b.out.put fun i => b.fadeOut.buffer i * fade.fadeOut i else b.out
  have hout : (afterTheLoop fade b).out =
      if b.fadeIn.accumulate then out.put fun i => b.fadeIn.buffer i * fade.fadeIn i else out := by
    cases hold : b.fadeOut.accumulate <;> cases hnew : b.fadeIn.accumulate <;>
      simp [afterTheLoop, out, hold, hnew]
  rw [hout, Target.put_faded_value, Target.put_faded_value]

/-- **The output of `process`.** -/
theorem process_out (fade : Fade n α) (items : List Item) (w : ω) (b : Buffers n α) :
    (process f signals fade items w b).2.out.buffer =
      mix fade (contributions f signals w items) := by
  have hfill : (process f signals fade items w b).2.out.buffer = (afterTheLoop fade
      (items.foldl (processItem f signals) (w, beforeTheLoop b)).2).out.value := by
    unfold process Target.value
    dsimp only
    split
    · rfl
    · rfl
  funext i
  obtain ⟨hout, hfadeOut, hfadeIn⟩ := foldl_processItem f signals items w (beforeTheLoop b) i
  have hstart : (beforeTheLoop b).out.value i = 0 ∧ (beforeTheLoop b).fadeOut.value i = 0 ∧
      (beforeTheLoop b).fadeIn.value i = 0 := ⟨rfl, rfl, rfl⟩
  rw [hstart.1, zero_add] at hout
  rw [hstart.2.1, zero_add] at hfadeOut
  rw [hstart.2.2, zero_add] at hfadeIn
  rw [hfill, afterTheLoop_value, hout, hfadeOut, hfadeIn, mix]

/-- What the function object is afterwards. -/
theorem process_state (fade : Fade n α) (items : List Item) (w : ω) (b : Buffers n α) :
    (process f signals fade items w b).1 =
      (items.foldl (processItem f signals) (w, beforeTheLoop b)).1 := by
  unfold process
  dsimp only
  split
  · rfl
  · rfl

end

/-- **The mix**: after any earlier contents of the buffers, the output is the mix of what the items
contribute. `CombineChannelsCrossfadeCopy` takes the samples of the items as they are,
`CombineChannelsCrossfade` transforms them, for the fade-out with `fade_out_tag`. -/
theorem crossfade_out (f : FunctionObject ω Item) (samples : ω → Item → Samples n α)
    (fade : Fade n α) (items : List Item) (w : ω) (b : Buffers n α) :
    (crossfadeCopy f samples fade items w b).2.out.buffer =
      mix fade (contributions f { samples, fadeOutSamples := samples } w items) ∧
    ∀ transform fadeOutTransform : ω → α → α,
      (crossfade f samples transform fadeOutTransform fade items w b).2.out.buffer =
        mix fade (contributions f
          { samples := fun w item i => transform w (samples w item i)
            fadeOutSamples := fun w item i => fadeOutTransform w (samples w item i) } w items) :=
  ⟨process_out f _ fade items w b, fun _ _ => process_out f _ fade items w b⟩

/-! ## Independent items -/

section
variable {ι C : Type} [DecidableEq ι] {f : FunctionObject ω ι} {signals : Signals ω ι n α}

/-- Each item has a state of its own in `get`, which decides what it contributes (`value`) and what
becomes of it (`next`). -/
structure Independent (f : FunctionObject ω ι) (signals : Signals ω ι n α) (get : ω → ι → C)
    (value : ι → C → Contribution n α) (next : ι → C → C) : Prop where
  value : ∀ w i, (contribution f signals w i).2 = value i (get w i)
  next : ∀ w i j, get (contribution f signals w i).1 j =
    if j = i then next i (get w i) else get w j

variable {get : ω → ι → C} {value : ι → C → Contribution n α} {next : ι → C → C}

omit [Semiring α] in
theorem Independent.contributions (h : Independent f signals get value next) {items : List ι}
    (hnodup : items.Nodup) (w : ω) :
    contributions f signals w items = items.map fun i => value i (get w i) := by
  induction items generalizing w with
  | nil => rfl
  | cons i items ih =>
    obtain ⟨hi, hnodup⟩ := List.nodup_cons.1 hnodup
    rw [CombineChannels.contributions, h.value, ih hnodup, List.map_cons]
    refine congrArg _ (List.map_congr_left fun j hj => ?_)
    have hne : j ≠ i := fun heq => hi (heq ▸ hj)
    rw [h.next, if_neg hne]

theorem Independent.foldl (h : Independent f signals get value next) {items : List ι}
    (hnodup : items.Nodup) (w : ω) (b : Buffers n α) (i : ι) :
    get (items.foldl (processItem f signals) (w, b)).1 i =
      if i ∈ items then next i (get w i) else get w i := by
  induction items generalizing w b with
  | nil => rfl
  | cons j items ih =>
    obtain ⟨hj, hnodup⟩ := List.nodup_cons.1 hnodup
    rw [List.foldl_cons, processItem_eq, ih hnodup, h.next]
    by_cases heq : i = j
    · subst heq
      rw [if_neg hj, if_pos rfl, if_pos List.mem_cons_self]
    · rw [if_neg heq]
      simp only [List.mem_cons, heq, false_or]

/-- **The mix of independent items.** -/
theorem Independent.process (h : Independent f signals get value next) (fade : Fade n α)
    {items : List ι} (hnodup : items.Nodup) (w : ω) (b : Buffers n α) :
    (∀ j, (process f signals fade items w b).2.out.buffer j =
      (items.map fun i => (value i (get w i)).value fade j).sum) ∧
    ∀ i, get (process f signals fade items w b).1 i =
      if i ∈ items then next i (get w i) else get w i := by
  refine ⟨fun j => ?_, fun i => ?_⟩
  · rw [process_out, h.contributions hnodup, mix_eq_sum, List.map_map]
    rfl
  · rw [process_state]
    exact h.foldl hnodup w _ i

end

/-! ## Convolved signals -/

/-- A convolver output whose `update` convolves again, as an item. -/
def channelObject {σ π β : Type} (input : σ) : FunctionObject (SourceChannel σ π β) Unit :=
  { select := fun c _ => (c, c.crossfadeMode), update := fun c _ => c.update input }

/-- `SourceChannel.combine` is one item of `CombineChannelsCrossfadeCopy`. -/
theorem contribution_combine {σ π β : Type} (convolve : Convolved σ π β → Samples n α) (input : σ)
    {c : SourceChannel σ π β} {signal : Convolved σ π β} (hsignal : c.signal = some signal) :
    let samples := fun (c : SourceChannel σ π β) (_ : Unit) =>
      (c.signal.map convolve).getD fun _ => 0
    contribution (channelObject input) { samples, fadeOutSamples := samples } c () =
      ((c.combine input).1,
        { constant := (c.combine input).2.out.map convolve
          old := (c.combine input).2.fadeOut.map convolve
          new := (c.combine input).2.fadeIn.map convolve }) := by
  intro samples
  let updated : Convolved σ π β := ⟨input, c.output.filterPtrs, c.weight⟩
  have hnew : (c.update input).signal = some updated := rfl
  have hupdate : samples (c.update input) () = convolve updated := rfl
  have hsamples : samples c () = convolve signal := by simp [samples, hsignal]
  cases hmode : c.crossfadeMode with
  | nothing => simp [contribution, channelObject, SourceChannel.combine, hmode]
  | constant =>
    simp [contribution, channelObject, SourceChannel.combine, hmode, hsamples, hsignal]
  | change =>
    simp [contribution, channelObject, SourceChannel.combine, hmode, hsamples, hsignal, hupdate,
      hnew]
  | fadeIn =>
    simp [contribution, channelObject, SourceChannel.combine, hmode, hupdate, hnew]
  | fadeOut =>
    simp [contribution, channelObject, SourceChannel.combine, hmode, hsamples, hsignal]

end Apf.CombineChannels
