import Mathlib.Data.List.Basic
import Mathlib.Tactic.Common

/-!
# Machines that answer every input

A machine is a step function `step : σ → α → σ × β`. `transduce` runs it over a list of inputs,
`signalOut` over a signal that has no end. A list that is cut into blocks is worked off block by
block with the same result (`transduce_blocks`). `pass` sends an input through several machines, one
after the other; the result is that of each machine working on the whole signal that the one before
it has put out (`signalOut_pass_cons`), and machines that superpose do so in a row, too (`pass_superpose`).
-/

set_option autoImplicit false

namespace Lib

variable {σ τ υ α β : Type*}

/-- One output for each input, and the state that is left. -/
def transduce (step : σ → α → σ × β) : σ → List α → σ × List β
  | s, [] => (s, [])
  | s, x :: xs =>
    let r := step s x
    let rest := transduce step r.1 xs
    (rest.1, r.2 :: rest.2)

/-- An input goes through all machines. -/
def pass (step : σ → α → σ × α) : List σ → α → List σ × α
  | [], x => ([], x)
  | s :: ss, x =>
    let r := step s x
    let rest := pass step ss r.2
    (r.1 :: rest.1, rest.2)

section
variable (step : σ → α → σ × β)

/-- The state before the input number `n`. -/
def signalState (s : σ) (x : ℕ → α) : ℕ → σ
  | 0 => s
  | n + 1 => (step (signalState s x n) (x n)).1

/-- The output number `n`. -/
def signalOut (s : σ) (x : ℕ → α) (n : ℕ) : β := (step (signalState step s x n) (x n)).2

@[simp] theorem transduce_nil (s : σ) : transduce step s [] = (s, []) := rfl

@[simp] theorem transduce_cons (s : σ) (x : α) (xs : List α) :
    transduce step s (x :: xs) = ((transduce step (step s x).1 xs).1,
      (step s x).2 :: (transduce step (step s x).1 xs).2) := rfl

theorem transduce_append (s : σ) (xs ys : List α) :
    transduce step s (xs ++ ys) =
      ((transduce step (transduce step s xs).1 ys).1,
        (transduce step s xs).2 ++ (transduce step (transduce step s xs).1 ys).2) := by
  induction xs generalizing s with
  | nil => rfl
  | cons x xs ih => simp [ih]

@[simp] theorem length_transduce (s : σ) (xs : List α) :
    (transduce step s xs).2.length = xs.length := by
  induction xs generalizing s with
  | nil => rfl
  | cons x xs ih => simp [ih]

/-! ## Blocks -/

/-- **Working block by block** does not change anything. -/
theorem transduce_blocks (s : σ) (blocks : List (List α)) :
    (transduce (transduce step) s blocks).1 = (transduce step s blocks.flatten).1 ∧
      (transduce (transduce step) s blocks).2.flatten = (transduce step s blocks.flatten).2 := by
  induction blocks generalizing s with
  | nil => exact ⟨rfl, rfl⟩
  | cons block blocks ih =>
    obtain ⟨hstate, hout⟩ := ih (transduce step s block).1
    rw [List.flatten_cons, transduce_append, transduce_cons]
    exact ⟨hstate, by rw [List.flatten_cons, hout]⟩

/-! ## Signals -/

/-- The first `n` samples of a signal. -/
theorem transduce_range (s : σ) (x : ℕ → α) (n : ℕ) :
    transduce step s ((List.range n).map x) =
      (signalState step s x n, (List.range n).map (signalOut step s x)) := by
  induction n with
  | zero => rfl
  | succ n ih =>
    rw [List.range_succ, List.map_append, transduce_append, ih, List.map_append]
    rfl

/-- A list is the beginning of a signal. -/
theorem transduce_eq_signal (d : α) (s : σ) (xs : List α) :
    (transduce step s xs).2 =
      (List.range xs.length).map (signalOut step s fun n => xs.getD n d) := by
  have hxs : xs = (List.range xs.length).map fun n => xs.getD n d := by
    refine List.ext_getElem (by simp) fun n h _ => ?_
    simp [List.getElem?_eq_getElem h]
  conv_lhs => rw [hxs]
  rw [transduce_range]

end

section
variable (step : σ → α → σ × α)

@[simp] theorem pass_nil (x : α) : pass step [] x = ([], x) := rfl

@[simp] theorem pass_cons (s : σ) (ss : List σ) (x : α) :
    pass step (s :: ss) x = ((step s x).1 :: (pass step ss (step s x).2).1,
      (pass step ss (step s x).2).2) := rfl

@[simp] theorem length_pass (ss : List σ) (x : α) : (pass step ss x).1.length = ss.length := by
  induction ss generalizing x with
  | nil => rfl
  | cons s ss ih => simp [ih]

theorem signalOut_pass_nil (x : ℕ → α) : signalOut (pass step) [] x = x := by
  have hstate : ∀ n, signalState (pass step) [] x n = [] := by
    intro n
    induction n with
    | zero => rfl
    | succ n ih => rw [signalState, ih, pass_nil]
  funext n
  rw [signalOut, hstate, pass_nil]

/-- **One machine after the other**: the first one works on the signal, the others on its output. -/
theorem signalOut_pass_cons (s : σ) (ss : List σ) (x : ℕ → α) :
    signalOut (pass step) (s :: ss) x = signalOut (pass step) ss (signalOut step s x) := by
  have hstate : ∀ n, signalState (pass step) (s :: ss) x n =
      signalState step s x n :: signalState (pass step) ss (signalOut step s x) n := by
    intro n
    induction n with
    | zero => rfl
    | succ n ih =>
      rw [signalState, ih, pass_cons]
      rfl
  funext n
  rw [signalOut, hstate, pass_cons]
  rfl

end

/-! ## Superposition -/

/-- Three lists of the same length whose entries are related. -/
inductive Forall₃ (R : σ → τ → υ → Prop) : List σ → List τ → List υ → Prop
  | nil : Forall₃ R [] [] []
  | cons {s : σ} {t : τ} {u : υ} {ss : List σ} {ts : List τ} {us : List υ} :
    R s t u → Forall₃ R ss ts us → Forall₃ R (s :: ss) (t :: ts) (u :: us)

theorem Forall₃.replicate {R : σ → τ → υ → Prop} {s : σ} {t : τ} {u : υ} (h : R s t u) (n : ℕ) :
    Forall₃ R (List.replicate n s) (List.replicate n t) (List.replicate n u) := by
  induction n with
  | zero => exact .nil
  | succ n ih => exact .cons h ih

/-- **Machines in a row** that superpose one by one do so together: `h` works on the sum of what `f`
and `g` work on. -/
theorem pass_superpose [Add α] {f : σ → α → σ × α} {g : τ → α → τ × α} {h : υ → α → υ × α}
    {R : σ → τ → υ → Prop}
    (hstep : ∀ s t u x y, R s t u →
      R (f s x).1 (g t y).1 (h u (x + y)).1 ∧ (h u (x + y)).2 = (f s x).2 + (g t y).2)
    {ss : List σ} {ts : List τ} {us : List υ} (hR : Forall₃ R ss ts us) (x y : α) :
    Forall₃ R (pass f ss x).1 (pass g ts y).1 (pass h us (x + y)).1 ∧
      (pass h us (x + y)).2 = (pass f ss x).2 + (pass g ts y).2 := by
  induction hR generalizing x y with
  | nil => exact ⟨.nil, rfl⟩
  | @cons s t u ss ts us hr _ ih =>
    obtain ⟨hnext, hout⟩ := hstep s t u x y hr
    obtain ⟨hrest, hsum⟩ := ih (f s x).2 (g t y).2
    rw [pass_cons, pass_cons, pass_cons, hout]
    exact ⟨.cons hnext hrest, hsum⟩

end Lib
