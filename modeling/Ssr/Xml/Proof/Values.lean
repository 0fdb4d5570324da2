import Ssr.Xml.Schema
import Mathlib.Data.List.Basic

/-!
# What is written is read back

The round trips of the values that have one: `S2AInt_A2SInt` and `S2ABool_A2SBool`. The schema
accepts a written whole number as an `xs:positiveInteger` if and only if it is positive
(`positiveInteger_A2SInt`).
-/

set_option autoImplicit false

namespace Apf

/-! ## White space -/

theorem strip_eq {p : Char → Bool} {s : List Char} (h : ∀ c ∈ s, p c = false) :
    ((s.dropWhile p).reverse.dropWhile p).reverse = s := by
  have hdrop : ∀ t : List Char, (∀ c ∈ t, p c = false) → t.dropWhile p = t := by
    intro t ht
    cases t with
    | nil => rfl
    | cons c t => exact List.dropWhile_cons_of_neg (by rw [ht c List.mem_cons_self]; decide)
  rw [hdrop s h, hdrop s.reverse fun c hc => h c (List.mem_reverse.1 hc), List.reverse_reverse]

/-! ## Digits -/

theorem readDigits_eq {cs : List Char} (h : ∀ c ∈ cs, c.isDigit = true) (n : ℕ) :
    readDigits cs n = some (Nat.ofDigitChars 10 cs n) := by
  induction cs generalizing n with
  | nil => rfl
  | cons c cs ih =>
    rw [readDigits, if_pos (h c List.mem_cons_self), ih fun d hd => h d (List.mem_cons_of_mem c hd),
      Nat.ofDigitChars_cons]

theorem isDigit_of_mem {n : ℕ} {c : Char} (h : c ∈ Nat.toDigits 10 n) : c.isDigit = true :=
  Nat.isDigit_of_mem_toDigits (by decide) (by decide) h

/-- The first character is a digit. -/
theorem digits_eq (n : ℕ) : ∃ c cs, Nat.toDigits 10 n = c :: cs ∧ c.isDigit = true := by
  obtain ⟨c, cs, hn⟩ := List.exists_cons_of_ne_nil (Nat.toDigits_ne_nil (n := n) (b := 10))
  exact ⟨c, cs, hn, isDigit_of_mem (n := n) (by rw [hn]; exact List.mem_cons_self)⟩

theorem readNat_digits (n : ℕ) : readNat (Nat.toDigits 10 n) = some n := by
  have hread := readDigits_eq (fun c => isDigit_of_mem (n := n) (c := c)) 0
  rw [Nat.ofDigitChars_ten_toDigits] at hread
  obtain ⟨c, cs, hn, -⟩ := digits_eq n
  rw [hn] at hread ⊢
  exact hread

theorem ne_sign {c : Char} (h : c.isDigit = true) : c ≠ '-' ∧ c ≠ '+' := by
  constructor <;> (rintro rfl; revert h; decide)

/-- The digits of a whole number. -/
theorem toList_toString (n : ℤ) :
    (∃ m : ℕ, n = m ∧ (toString n).toList = Nat.toDigits 10 m) ∨
      ∃ m : ℕ, n = -(m + 1 : ℕ) ∧ (toString n).toList = '-' :: Nat.toDigits 10 (m + 1) := by
  cases n with
  | ofNat m => exact .inl ⟨m, rfl, by rw [Int.toString_eq_repr]; exact Nat.toList_repr⟩
  | negSucc m =>
    refine .inr ⟨m, rfl, ?_⟩
    change ("-" ++ (m + 1).repr).toList = _
    rw [String.toList_append, Nat.toList_repr]
    exact List.singleton_append

theorem mem_toList_toString {n : ℤ} {c : Char} (h : c ∈ (toString n).toList) :
    c.isDigit = true ∨ c = '-' := by
  rcases toList_toString n with ⟨m, -, he⟩ | ⟨m, -, he⟩
  · rw [he] at h
    exact .inl (isDigit_of_mem h)
  · rw [he] at h
    rcases List.mem_cons.1 h with h | h
    · exact .inr h
    · exact .inl (isDigit_of_mem h)

/-- Neither kind of white space is a digit or a sign. -/
theorem isspace_digit {c : Char} (h : c.isDigit = true ∨ c = '-') :
    isspace c = false ∧ Ssr.Schema.isSpace c = false := by
  rcases h with h | rfl
  · have hrange : 48 ≤ c.toNat ∧ c.toNat ≤ 57 := by
      simpa [Char.isDigit, UInt32.le_iff_toNat_le] using h
    have hne : ∀ d : Char, d.toNat < 48 → c ≠ d := fun d hd he => by
      rw [he] at hrange
      omega
    constructor
    · simp only [isspace, Bool.or_eq_false_iff, Bool.and_eq_false_iff, decide_eq_false_iff_not]
      exact ⟨hne ' ' (by decide), .inr (by omega)⟩
    · simp only [Ssr.Schema.isSpace, Bool.or_eq_false_iff, decide_eq_false_iff_not]
      exact ⟨⟨⟨hne ' ' (by decide), hne '\t' (by decide)⟩, hne '\n' (by decide)⟩,
        hne '\r' (by decide)⟩
  · decide

theorem readInt_toString (n : ℤ) : readInt (trim (toString n).toList) = some n := by
  have htrim : trim (toString n).toList = (toString n).toList :=
    strip_eq fun c hc => (isspace_digit (mem_toList_toString hc)).1
  rw [htrim]
  rcases toList_toString n with ⟨m, hm, he⟩ | ⟨m, hm, he⟩
  · obtain ⟨c, cs, hcs, hc⟩ := digits_eq m
    have hnat := readNat_digits m
    obtain ⟨hminus, hplus⟩ := ne_sign hc
    rw [he, hm]
    rw [hcs] at hnat ⊢
    rw [readInt, hnat]
    · rfl
    · exact fun _ h => hminus (List.cons.inj h).1
    · exact fun _ h => hplus (List.cons.inj h).1
  · rw [he, hm, readInt, readNat_digits]
    rfl

/-- **Whole numbers are read back.** -/
theorem S2AInt_A2SInt (n : Int32) : S2AInt (A2SInt n) = some n := by
  have hlt := n.toInt_lt
  have hle := n.le_toInt
  rw [S2AInt, A2SInt, readInt_toString, Option.bind_some, if_pos (by omega), Int32.ofInt_toInt]

theorem S2ABool_A2SBool (b : Bool) : S2ABool (A2SBool b) = some b := by
  cases b <;> decide

end Apf

namespace Ssr.Schema

open Apf

theorem positiveInteger_A2SInt (n : Int32) : positiveInteger (A2SInt n) = true ↔ 0 < n.toInt := by
  have hcollapse : collapse (A2SInt n) = (toString n.toInt).toList :=
    strip_eq fun c hc => (isspace_digit (mem_toList_toString hc)).2
  unfold positiveInteger
  rw [hcollapse]
  rcases toList_toString n.toInt with ⟨m, hm, he⟩ | ⟨m, hm, he⟩
  · obtain ⟨c, cs, hcs, hc⟩ := digits_eq m
    have hnat := readNat_digits m
    have hplus := (ne_sign hc).2
    rw [he, hm]
    rw [hcs] at hnat ⊢
    simp [hplus, hnat]
  · have hminus : readNat ('-' :: Nat.toDigits 10 (m + 1)) = none := rfl
    rw [he, hm]
    refine iff_of_false ?_ (by omega)
    simp [hminus]

end Ssr.Schema
