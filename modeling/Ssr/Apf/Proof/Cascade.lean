import Ssr.Apf.Cascade
import Ssr.Lib.LinearFilter

/-!
# What a cascade of filter sections computes

Signals are power series. A section multiplies the sum of its input and of the tone of the denormal
prevention with its transfer function (`BiQuad.signalOut_eq`), a cascade does so section by section,
however the signal is cut into blocks (`Cascade.execute_transfer`). When coefficients change between
two samples, the tones still add the same signal to the output as they do to silence
(`Cascade.run_superpose`).
-/

set_option autoImplicit false

namespace Apf

open Lib PowerSeries

namespace Cascade

/-! ## Setting coefficients -/

section
variable {δ T : Type} {cascade : Cascade δ T} {c : List (SosCoefficients T)}

theorem fits_iff : cascade.fits c = true ↔ cascade.length = c.length := by
  simp [Cascade.fits]

theorem length_set (h : cascade.fits c = true) : (cascade.set c).length = cascade.length := by
  rw [fits_iff] at h
  simp [Cascade.set, h]

/-- Setting the same coefficients again. -/
theorem set_self (h : cascade.map (·.coefficients) = c) : cascade.set c = cascade := by
  subst h
  rw [Cascade.set, List.zipWith_map_right, List.zipWith_self]
  exact List.map_id _

theorem map_set (h : cascade.fits c = true) : (cascade.set c).map (·.coefficients) = c := by
  rw [fits_iff] at h
  rw [Cascade.set, List.map_zipWith]
  exact List.ext_getElem (by simp [h]) fun i _ _ => by simp [BiQuad.assign]

variable [Add T] [Sub T] [Mul T] (prevention : DenormalPrevention δ T)

theorem length_call (cascade : Cascade δ T) (input : T) :
    (cascade.call prevention input).1.length = cascade.length := length_pass _ cascade input

/-- A sample does not change the coefficients. -/
theorem map_call (cascade : Cascade δ T) (input : T) :
    (cascade.call prevention input).1.map (·.coefficients) = cascade.map (·.coefficients) := by
  induction cascade generalizing input with
  | nil => rfl
  | cons s cascade ih => exact congrArg₂ List.cons rfl (ih _)

end

end Cascade

variable {T : Type} [Field T]

/-! ## Transfer functions -/

/-- The transfer function, in powers of a delay by one sample. -/
noncomputable def SosCoefficients.transfer (c : SosCoefficients T) : PowerSeries T :=
  polynomial2 c.b0 c.b1 c.b2 * (polynomial2 1 c.a1 c.a2)⁻¹

/-- What `dp.ac` adds: a tone at the Nyquist frequency. -/
def nyquistTone (constant : T) (n : ℕ) : T := (-1) ^ (n + 1) * constant

/-- What the section adds to its input, and what `dp.ac` adds. -/
def BiQuad.inner (constant : T) (biquad : BiQuad T T) (x : ℕ → T) (n : ℕ) : T :=
  (signalState (BiQuad.call (dp.ac constant)) biquad x (n + 1)).w2

/-- The state of a section whose coefficients do not change. -/
theorem BiQuad.signalState_eq (constant : T) (c : SosCoefficients T) (x : ℕ → T) (n : ℕ) :
    let biquad := (BiQuad.new (dp.ac constant)).assign c
    let s := signalState (BiQuad.call (dp.ac constant)) biquad x n
    s.coefficients = c ∧ s.denormals = (-1) ^ n * constant ∧
      s.w2 = past (biquad.inner constant x) 1 n ∧ s.w1 = past (biquad.inner constant x) 2 n := by
  induction n with
  | zero => exact ⟨rfl, by simp [signalState, assign, new, dp.ac], rfl, rfl⟩
  | succ n ih =>
    obtain ⟨hcoefficients, hdenormals, hw2, -⟩ := ih
    refine ⟨?_, ?_, ?_, ?_⟩
    · exact hcoefficients
    · rw [pow_succ, mul_neg_one, neg_mul, ← hdenormals]
      rfl
    · rw [past_succ, past_zero]
      rfl
    · rw [past_succ, ← hw2]
      rfl

/-- **One section.** -/
theorem BiQuad.signalOut_eq (constant : T) (c : SosCoefficients T) (x : ℕ → T) :
    PowerSeries.mk (signalOut (BiQuad.call (dp.ac constant))
        ((BiQuad.new (dp.ac constant)).assign c) x) =
      c.transfer * (PowerSeries.mk x + PowerSeries.mk (nyquistTone constant)) := by
  let biquad := (BiQuad.new (dp.ac constant)).assign c
  have hsum : PowerSeries.mk x + PowerSeries.mk (nyquistTone constant) =
      PowerSeries.mk fun n => x n + nyquistTone constant n := by
    ext n
    simp
  rw [hsum]
  refine directForm (w := biquad.inner constant x) (fun n => ?_) fun n => ?_
  · obtain ⟨hcoefficients, hdenormals, hw2, hw1⟩ := signalState_eq constant c x n
    have hstep : biquad.inner constant x n =
        x n - (signalState (BiQuad.call (dp.ac constant)) biquad x n).coefficients.a1 *
          (signalState (BiQuad.call (dp.ac constant)) biquad x n).w2 -
        (signalState (BiQuad.call (dp.ac constant)) biquad x n).coefficients.a2 *
          (signalState (BiQuad.call (dp.ac constant)) biquad x n).w1 +
        -(signalState (BiQuad.call (dp.ac constant)) biquad x n).denormals := rfl
    rw [hstep, hcoefficients, hdenormals, hw2, hw1, nyquistTone, pow_succ]
    ring
  · obtain ⟨hcoefficients, -, hw2, hw1⟩ := signalState_eq constant c x n
    have hstep : signalOut (BiQuad.call (dp.ac constant)) biquad x n =
        (signalState (BiQuad.call (dp.ac constant)) biquad x n).coefficients.b0 *
          biquad.inner constant x n +
        (signalState (BiQuad.call (dp.ac constant)) biquad x n).coefficients.b1 *
          (signalState (BiQuad.call (dp.ac constant)) biquad x n).w2 +
        (signalState (BiQuad.call (dp.ac constant)) biquad x n).coefficients.b2 *
          (signalState (BiQuad.call (dp.ac constant)) biquad x n).w1 := rfl
    rw [hstep, hcoefficients, hw2, hw1]

/-! ## Cascades -/

/-- What a cascade makes of the signal `x`. -/
noncomputable def Cascade.response (constant : T) (coefficients : List (SosCoefficients T))
    (x : PowerSeries T) : PowerSeries T :=
  coefficients.foldl (fun x c => c.transfer * (x + PowerSeries.mk (nyquistTone constant))) x

/-- A new cascade with coefficients. -/
theorem Cascade.set_new {δ : Type} (prevention : DenormalPrevention δ T)
    (coefficients : List (SosCoefficients T)) :
    (Cascade.new prevention coefficients.length).set coefficients =
      coefficients.map (BiQuad.new prevention).assign := by
  induction coefficients with
  | nil => rfl
  | cons c coefficients ih =>
    rw [new, List.length_cons, List.replicate_succ, List.map_cons, ← ih]
    rfl

theorem Cascade.signalOut_eq (constant : T) (coefficients : List (SosCoefficients T)) (x : ℕ → T) :
    PowerSeries.mk (signalOut (Cascade.call (dp.ac constant))
        (coefficients.map (BiQuad.new (dp.ac constant)).assign) x) =
      response constant coefficients (PowerSeries.mk x) := by
  induction coefficients generalizing x with
  | nil => exact congrArg PowerSeries.mk (signalOut_pass_nil (BiQuad.call (dp.ac constant)) x)
  | cons c coefficients ih =>
    have hfirst := signalOut_pass_cons (BiQuad.call (dp.ac constant))
      ((BiQuad.new (dp.ac constant)).assign c)
      (coefficients.map (BiQuad.new (dp.ac constant)).assign) x
    have hrest := ih (signalOut (BiQuad.call (dp.ac constant))
      ((BiQuad.new (dp.ac constant)).assign c) x)
    rw [BiQuad.signalOut_eq] at hrest
    rw [List.map_cons, response, List.foldl_cons, ← response, ← hrest]
    exact congrArg PowerSeries.mk hfirst

/-- **The transfer function of a cascade**: `execute`, called for one block after the other, whatever
their sizes, puts out the input multiplied with the transfer functions of the sections; the denormal
prevention adds a tone at the Nyquist frequency to the input of each section. -/
theorem Cascade.execute_transfer (constant : T) (coefficients : List (SosCoefficients T))
    (blocks : List (List T)) :
    let cascade := Cascade.new (dp.ac constant) coefficients.length
    cascade.fits coefficients = true ∧
      (transduce (Cascade.execute (dp.ac constant)) (cascade.set coefficients) blocks).2.flatten =
        (List.range blocks.flatten.length).map fun n => coeff n (response constant coefficients
          (PowerSeries.mk fun n => blocks.flatten.getD n 0)) := by
  intro cascade
  refine ⟨by simp [cascade, fits, new], ?_⟩
  have hset : cascade.set coefficients = coefficients.map (BiQuad.new (dp.ac constant)).assign :=
    set_new (dp.ac constant) coefficients
  calc (transduce (Cascade.execute (dp.ac constant)) (cascade.set coefficients) blocks).2.flatten
    _ = (transduce (Cascade.call (dp.ac constant)) (cascade.set coefficients) blocks.flatten).2 :=
      (transduce_blocks (Cascade.call (dp.ac constant)) (cascade.set coefficients) blocks).2
    _ = (List.range blocks.flatten.length).map (signalOut (Cascade.call (dp.ac constant))
          (cascade.set coefficients) fun n => blocks.flatten.getD n 0) :=
      transduce_eq_signal _ 0 _ _
    _ = _ := by
      rw [hset, ← signalOut_eq]
      simp only [coeff_mk]

/-! ## Coefficients that change -/

namespace Cascade

/-- What is done with a cascade. -/
inductive Operation (T : Type)
  | sample (input : T)
  | set (coefficients : List (SosCoefficients T))

/-- The same with silence as the input. -/
def Operation.silence : Operation T → Operation T
  | sample _ => sample 0
  | set coefficients => set coefficients

/-- The cascade after some operations, and the output samples; `none` if the assertion of `set`
fails. -/
def run {δ : Type} (prevention : DenormalPrevention δ T) :
    Cascade δ T → List (Operation T) → Option (Cascade δ T × List T)
  | cascade, [] => some (cascade, [])
  | cascade, .sample input :: ops =>
    let (cascade, output) := cascade.call prevention input
    (run prevention cascade ops).map fun r => (r.1, output :: r.2)
  | cascade, .set coefficients :: ops =>
    if cascade.fits coefficients then run prevention (cascade.set coefficients) ops else none

omit [Field T] in
/-- One output sample more. -/
theorem map_snd_cons {δ : Type} (r : Option (Cascade δ T × List T)) (output : T) :
    (r.map fun r => (r.1, output :: r.2)).map Prod.snd = (r.map Prod.snd).map (output :: ·) := by
  cases r <;> rfl

/-- The assertion of `set` holds throughout a run if and only if it is always called with one set of
coefficients for each section. -/
theorem run_isSome_iff {δ : Type} (prevention : DenormalPrevention δ T) (cascade : Cascade δ T)
    (ops : List (Operation T)) : (run prevention cascade ops).isSome ↔
      ∀ coefficients, .set coefficients ∈ ops → coefficients.length = cascade.length := by
  induction ops generalizing cascade with
  | nil => simp [run]
  | cons op ops ih =>
    cases op with
    | sample input => simp [run, ih, length_call]
    | set coefficients =>
      by_cases hfits : cascade.fits coefficients = true
      · rw [run, if_pos hfits, ih, length_set hfits]
        simp [← fits_iff.1 hfits]
      · rw [run, if_neg hfits]
        rw [fits_iff] at hfits
        simp only [Option.isSome_none, Bool.false_eq_true, false_iff]
        exact fun h => hfits (h coefficients (List.mem_cons_self ..)).symm

theorem run_append {δ : Type} (prevention : DenormalPrevention δ T) (cascade : Cascade δ T)
    (ops ops' : List (Operation T)) :
    run prevention cascade (ops ++ ops') = (run prevention cascade ops).bind fun r =>
      (run prevention r.1 ops').map fun r' => (r'.1, r.2 ++ r'.2) := by
  induction ops generalizing cascade with
  | nil => simp [run]
  | cons op ops ih =>
    cases op with
    | sample input =>
      simp only [List.cons_append, run, ih]
      cases run prevention (cascade.call prevention input).1 ops with
      | none => rfl
      | some r =>
        simp only [Option.bind_some, Option.map_some, Option.map_map]
        rfl
    | set coefficients =>
      simp only [List.cons_append, run, ih]
      split
      · rfl
      · rfl

end Cascade

/-- The state of a section is the sum of the states of two sections with the same coefficients, of
which the second one has the same denormal prevention. -/
structure BiQuad.Superposed (s : BiQuad Unit T) (t u : BiQuad T T) : Prop where
  coefficients : s.coefficients = u.coefficients ∧ t.coefficients = u.coefficients
  denormals : t.denormals = u.denormals
  w0 : u.w0 = s.w0 + t.w0
  w1 : u.w1 = s.w1 + t.w1
  w2 : u.w2 = s.w2 + t.w2

theorem BiQuad.Superposed.call {s : BiQuad Unit T} {t u : BiQuad T T} (h : Superposed s t u)
    (constant x y : T) :
    Superposed (s.call dp.none x).1 (t.call (dp.ac constant) y).1
        (u.call (dp.ac constant) (x + y)).1 ∧
      (u.call (dp.ac constant) (x + y)).2 =
        (s.call dp.none x).2 + (t.call (dp.ac constant) y).2 := by
  obtain ⟨⟨hs, ht⟩, hdenormals, -, hw1, hw2⟩ := h
  refine ⟨⟨⟨hs, ht⟩, ?_, hw1, hw2, ?_⟩, ?_⟩
  · simp [BiQuad.call, dp.ac, hdenormals]
  · simp only [BiQuad.call, dp.ac, dp.none, hs, ht, hdenormals, hw1, hw2]
    ring
  · simp only [BiQuad.call, dp.ac, dp.none, hs, ht, hdenormals, hw1, hw2]
    ring

namespace Cascade

variable {ss : Cascade Unit T} {ts us : Cascade T T}

theorem fits_of_superposed (h : Forall₃ BiQuad.Superposed ss ts us)
    (coefficients : List (SosCoefficients T)) :
    ss.fits coefficients = us.fits coefficients ∧ ts.fits coefficients = us.fits coefficients := by
  have hlength : ss.length = us.length ∧ ts.length = us.length := by
    induction h with
    | nil => exact ⟨rfl, rfl⟩
    | cons _ _ ih => exact ⟨congrArg (· + 1) ih.1, congrArg (· + 1) ih.2⟩
  simp only [fits, hlength, and_self]

theorem set_superposed (h : Forall₃ BiQuad.Superposed ss ts us)
    (coefficients : List (SosCoefficients T)) :
    Forall₃ BiQuad.Superposed (ss.set coefficients) (ts.set coefficients) (us.set coefficients) := by
  induction h generalizing coefficients with
  | nil => exact .nil
  | cons hr _ ih =>
    cases coefficients with
    | nil => exact .nil
    | cons c coefficients =>
      exact .cons ⟨⟨rfl, rfl⟩, hr.denormals, hr.w0, hr.w1, hr.w2⟩ (ih coefficients)

theorem run_of_superposed (constant : T) (h : Forall₃ BiQuad.Superposed ss ts us)
    (ops : List (Operation T)) :
    (us.run (dp.ac constant) ops).map Prod.snd =
      Option.map₂ (List.zipWith (· + ·)) ((ss.run dp.none ops).map Prod.snd)
        ((ts.run (dp.ac constant) (ops.map Operation.silence)).map Prod.snd) := by
  induction ops generalizing ss ts us with
  | nil => rfl
  | cons op ops ih =>
    cases op with
    | sample input =>
      obtain ⟨hnext, hout⟩ := pass_superpose
        (fun s t u x y hr => BiQuad.Superposed.call hr constant x y) h input 0
      rw [add_zero] at hnext hout
      simp only [run, List.map_cons, Operation.silence, call, hout, map_snd_cons, ih hnext]
      cases run dp.none (pass (BiQuad.call dp.none) ss input).1 ops with
      | none => rfl
      | some r =>
        cases run (dp.ac constant) (pass (BiQuad.call (dp.ac constant)) ts 0).1
          (ops.map Operation.silence) with
        | none => rfl
        | some r' => rfl
    | set coefficients =>
      obtain ⟨hss, hts⟩ := fits_of_superposed h coefficients
      simp only [run, List.map_cons, Operation.silence, hss, hts]
      split
      · exact ih (set_superposed h coefficients)
      · rfl

/-- **Denormal prevention is independent of the signal**: whatever samples and coefficients a cascade
gets, its output is the output of the same cascade without denormal prevention, plus what the
prevention alone makes of silence and the same coefficients. The assertion of `set` holds in the run
with denormal prevention if and only if it holds in the run without. -/
theorem run_superpose (constant : T) (sections : ℕ) (ops : List (Operation T)) :
    (run (dp.ac constant) (.new (dp.ac constant) sections) ops).map Prod.snd =
      Option.map₂ (List.zipWith (· + ·))
        ((run dp.none (.new dp.none sections) ops).map Prod.snd)
        ((run (dp.ac constant) (.new (dp.ac constant) sections)
          (ops.map Operation.silence)).map Prod.snd) ∧
    ((run (dp.ac constant) (.new (dp.ac constant) sections) ops).isSome ↔
      (run dp.none (.new dp.none sections) ops).isSome) := by
  refine ⟨run_of_superposed constant (.replicate ?_ sections) ops, ?_⟩
  · exact ⟨⟨rfl, rfl⟩, rfl, by simp [BiQuad.new], by simp [BiQuad.new], by simp [BiQuad.new]⟩
  · rw [run_isSome_iff, run_isSome_iff, Cascade.new, Cascade.new, List.length_replicate,
      List.length_replicate]

end Cascade

end Apf
