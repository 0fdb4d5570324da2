import Ssr.Apf.String2Time
import Ssr.Apf.TimeText
import Mathlib.Tactic.Ring

/-!
# Counting the characters of a text

The colons, the signs and the exponents in the text of a time are those of its parts
(`ClockTime.countP_text`). So a text has only one form, and a clock value with the text of something
in the grammar is itself in it (`ClockTime.of_meaning`).
-/

set_option autoImplicit false

namespace Apf

open Lib

variable {format : Format}

/-! ## Characters -/

theorem isspace_of_isDigit {c : Char} (h : c.isDigit = true) : isspace c = false := by
  have hge : 48 ≤ c.toNat := by
    simp only [Char.isDigit, Bool.and_eq_true, decide_eq_true_eq, ge_iff_le,
      UInt32.le_iff_toNat_le] at h
    exact h.1
  simp only [isspace, Bool.or_eq_false_iff, decide_eq_false_iff_not, Bool.and_eq_false_iff]
  refine ⟨ne_of_isDigit h (by decide), .inr ?_⟩
  omega

theorem not_continues_of_isspace {c : Char} (h : isspace c = true) : continues c = false := by
  simp only [continues, Bool.or_eq_false_iff, decide_eq_false_iff_not]
  refine ⟨⟨⟨?_, ?_⟩, ?_⟩, ?_⟩
  · by_contra hdigit
    rw [isspace_of_isDigit (by simpa using hdigit)] at h
    cases h
  all_goals
    rintro rfl
    revert h
    decide

/-- A complete numeral does not begin with white space. -/
theorem head_text {n : Numeral} (hn : n.complete = true) (rest : List Char) :
    ∀ c ∈ (n.text ++ rest).head?, isspace c = false := by
  intro c hc
  rcases n.head_text hn rest c hc with ⟨s, -, rfl⟩ | h | rfl
  · cases s <;> decide
  · exact isspace_of_isDigit h
  · decide

theorem text_ne_nil {n : Numeral} (hn : n.complete = true) (rest : List Char) :
    n.text ++ rest ≠ [] := by
  intro h
  have hwhole : n.whole.chars = [] ∧ n.fraction = none := by
    rw [Numeral.text] at h
    simp only [List.append_eq_nil_iff] at h
    refine ⟨h.1.2.1, ?_⟩
    cases hf : n.fraction with
    | none => rfl
    | some d =>
      rw [hf] at h
      cases h.1.2.2.1
  rw [Numeral.complete, Numeral.mantissa, hwhole.1, hwhole.2] at hn
  cases hn

/-! ## Characters of a text -/

section
variable {p : Char → Bool} (hdigit : ∀ c : Char, c.isDigit = true → p c = false)
include hdigit

theorem ClockTime.countP_text (hspace : ∀ c : Char, isspace c = true → p c = false)
    (x : ClockTime) :
    x.text.countP p = x.minus.elim 0 (fun _ => (p '-').toNat) +
      x.sign.elim 0 (fun s => (p s.char).toNat) +
      (p ':').toNat * (if x.hours.isSome then 2 else 1) +
      x.fraction.elim 0 (fun f => (p '.').toNat + f.exponent.elim 0 (·.text.countP p)) := by
  obtain ⟨lead, minus, sign, hours, minutes, seconds, fraction, trail⟩ := x
  have hfirst : (Numeral.integer sign (hours.getD minutes)).text.countP p =
      sign.elim 0 (fun s => (p s.char).toNat) :=
    (Numeral.countP_text hdigit _).trans (by simp [Numeral.integer])
  have hminus : (minus.elim [] ('-' :: ·.chars)).countP p =
      minus.elim 0 (fun _ => (p '-').toNat) := by
    cases minus with
    | none => rfl
    | some gap => cases hs : p '-' <;> simp [countP_eq_zero_of gap.isspace hspace, hs]
  have hfraction : (fraction.elim [] (·.numeral.text)).countP p =
      fraction.elim 0 (fun f => (p '.').toNat + f.exponent.elim 0 (·.text.countP p)) := by
    cases fraction with
    | none => rfl
    | some f =>
      refine (Numeral.countP_text hdigit f.numeral).trans ?_
      simp [Fraction.numeral]
  have hcolon : ∀ cs : List Char, (':' :: cs).countP p = cs.countP p + (p ':').toNat := by
    intro cs
    cases hs : p ':' <;> simp [hs]
  have hhours : (hours.elim [] (fun _ => ':' :: minutes.chars)).countP p =
      hours.elim 0 (fun _ => (p ':').toNat) := by
    cases hours with
    | none => rfl
    | some h => simp [hcolon, countP_eq_zero_of minutes.isDigit hdigit]
  simp only [ClockTime.text, ClockTime.secondsText, ClockTime.first, List.countP_append, hcolon,
    countP_eq_zero_of lead.isspace hspace, countP_eq_zero_of trail.isspace hspace,
    countP_eq_zero_of seconds.isDigit hdigit, hminus, hfirst, hfraction, hhours]
  cases hours with
  | none =>
    simp only [Option.elim_none, Option.isSome_none, Bool.false_eq_true, if_false]
    ring
  | some h =>
    simp only [Option.elim_some, Option.isSome_some, if_true]
    ring

end

/-! ## Colons -/

def isColon (c : Char) : Bool := c == ':'

theorem isColon_of_isDigit (c : Char) (h : c.isDigit = true) : isColon c = false := by
  simpa [isColon] using ne_of_isDigit (d := ':') h (by decide)

theorem isColon_of_isspace (c : Char) (h : isspace c = true) : isColon c = false := by
  have hc : c ≠ ':' := by
    rintro rfl
    cases h
  simpa [isColon] using hc

theorem colons_of_head {cs : List Char} (h : ∀ c ∈ cs.head?, c ≠ ':') :
    colons cs = cs.countP isColon % 256 := by
  cases cs with
  | nil => rfl
  | cons c cs =>
    have hc : isColon c = false := by simpa [isColon] using h c rfl
    rw [colons, List.countP_cons_of_neg (by simp [hc])]
    rfl

theorem isColon_sign (sign : Option Sign) :
    (sign.elim 0 fun s => (isColon s.char).toNat) = 0 := by
  cases sign with
  | none => rfl
  | some s => cases s <;> rfl

theorem isColon_exponent (x : Option Exponent) : (x.elim 0 (·.text.countP isColon)) = 0 := by
  cases x with
  | none => rfl
  | some x =>
    have he : isColon x.e = false := by rcases x.isE with he | he <;> rw [he] <;> rfl
    rw [Option.elim_some, x.countP_text isColon_of_isDigit, isColon_sign, he]
    rfl

theorem ClockTime.countP_isColon (x : ClockTime) :
    x.text.countP isColon = if x.hours.isSome then 2 else 1 := by
  have hminus : (x.minus.elim 0 fun _ => (isColon '-').toNat) = 0 := by cases x.minus <;> rfl
  have hcolon : (isColon ':').toNat = 1 := rfl
  have hfraction : (x.fraction.elim 0 fun f =>
      (isColon '.').toNat + f.exponent.elim 0 (·.text.countP isColon)) = 0 := by
    cases x.fraction with
    | none => rfl
    | some f =>
      rw [Option.elim_some, isColon_exponent]
      rfl
  rw [x.countP_text isColon_of_isDigit isColon_of_isspace, hminus, isColon_sign, hfraction, hcolon,
    Nat.zero_add, Nat.one_mul, Nat.add_zero]

theorem NumberTime.countP_isColon (x : NumberTime) : x.text.countP isColon = 0 := by
  have hunit : (x.unit.elim [] TimeUnit.text).countP isColon = 0 := by
    cases x.unit with
    | none => rfl
    | some u => cases u <;> decide
  have hfraction : (x.number.fraction.elim 0 fun _ => (isColon '.').toNat) = 0 := by
    cases x.number.fraction <;> rfl
  simp only [NumberTime.text, List.countP_append, hunit,
    countP_eq_zero_of x.lead.isspace isColon_of_isspace,
    countP_eq_zero_of x.gap.isspace isColon_of_isspace,
    countP_eq_zero_of x.trail.isspace isColon_of_isspace,
    x.number.countP_text isColon_of_isDigit, isColon_sign, isColon_exponent, hfraction,
    Nat.add_zero]

theorem NumberTime.colons_text (x : NumberTime) : colons x.text = 0 := by
  have hle : (x.text.drop 1).countP isColon ≤ x.text.countP isColon :=
    (List.drop_sublist 1 x.text).countP_le
  rw [x.countP_isColon, Nat.le_zero] at hle
  rw [colons]
  change (x.text.drop 1).countP isColon % 256 = 0
  rw [hle]

/-! ## Signs and exponents -/

theorem isSign_of_isspace (c : Char) (h : isspace c = true) : isSign c = false := by
  simp only [isSign, Bool.or_eq_false_iff, decide_eq_false_iff_not]
  constructor <;>
  · rintro rfl
    cases h

theorem ClockTime.countP_isSign (x : ClockTime) :
    x.text.countP isSign = x.minus.isSome.toNat + x.sign.isSome.toNat +
      x.fraction.elim 0 (fun f => f.exponent.elim 0 (·.text.countP isSign)) := by
  have hminus : (x.minus.elim 0 fun _ => (isSign '-').toNat) = x.minus.isSome.toNat := by
    cases x.minus <;> rfl
  have hsign : (x.sign.elim 0 fun s => (isSign s.char).toNat) = x.sign.isSome.toNat := by
    cases x.sign with
    | none => rfl
    | some s => cases s <;> rfl
  have hcolon : (isSign ':').toNat = 0 := rfl
  have hpoint : (isSign '.').toNat = 0 := rfl
  rw [x.countP_text (fun _ => isSign_of_isDigit) isSign_of_isspace, hminus, hsign, hcolon, hpoint,
    Nat.zero_mul, Nat.add_zero]
  simp only [Nat.zero_add]

def isExponent (c : Char) : Bool := c = 'e' || c = 'E'

theorem isExponent_of_isDigit (c : Char) (h : c.isDigit = true) : isExponent c = false := by
  simp only [isExponent, Bool.or_eq_false_iff, decide_eq_false_iff_not]
  exact ⟨ne_of_isDigit h (by decide), ne_of_isDigit h (by decide)⟩

theorem isExponent_of_isspace (c : Char) (h : isspace c = true) : isExponent c = false := by
  simp only [isExponent, Bool.or_eq_false_iff, decide_eq_false_iff_not]
  constructor <;>
  · rintro rfl
    cases h

theorem ClockTime.countP_isExponent (x : ClockTime) :
    x.text.countP isExponent = x.fraction.elim 0 (fun f => f.exponent.isSome.toNat) := by
  have hsign : ∀ sign : Option Sign, (sign.elim 0 fun s => (isExponent s.char).toNat) = 0 := by
    intro sign
    cases sign with
    | none => rfl
    | some s => cases s <;> rfl
  have hminus : (x.minus.elim 0 fun _ => (isExponent '-').toNat) = 0 := by cases x.minus <;> rfl
  have hcolon : (isExponent ':').toNat = 0 := rfl
  have hpoint : (isExponent '.').toNat = 0 := rfl
  rw [x.countP_text isExponent_of_isDigit isExponent_of_isspace, hminus, hsign, hcolon, hpoint,
    Nat.zero_mul, Nat.zero_add]
  cases x.fraction with
  | none => rfl
  | some f =>
    rw [Option.elim_some, Option.elim_some, Nat.zero_add]
    cases hf : f.exponent with
    | none => rfl
    | some e =>
      have he : isExponent e.e = true := by rcases e.isE with he | he <;> rw [he] <;> rfl
      rw [Option.elim_some, e.countP_text isExponent_of_isDigit, hsign, he]
      rfl

/-- A clock value with the text of something in the grammar is itself in it. -/
theorem ClockTime.of_meaning {x : ClockTime} {t : ℚ} (h : Meaning format x.text t) :
    (x.minus.isSome = true → x.sign.isSome = false) ∧
      ∀ f, x.fraction = some f → f.exponent = none := by
  rcases h with ⟨y, -, htext, -⟩ | ⟨y, hy, htext, -⟩
  · have hcolons := x.countP_isColon
    rw [← htext, y.countP_isColon] at hcolons
    split at hcolons <;> cases hcolons
  · have hexponent := x.countP_isExponent
    have hzero : y.text.countP isExponent = 0 := by
      rw [y.countP_isExponent]
      cases hf : y.fraction with
      | none => rfl
      | some f => rw [Option.elim_some, hy.exponent f hf]; rfl
    have hle : y.text.countP isSign ≤ 1 := by
      rw [y.countP_isSign]
      have hfraction : (y.fraction.elim 0 fun f => f.exponent.elim 0 (·.text.countP isSign)) = 0 := by
        cases hf : y.fraction with
        | none => rfl
        | some f => rw [Option.elim_some, hy.exponent f hf]; rfl
      rw [hfraction]
      rcases hy.sign with hs | ⟨hm, hs⟩
      · rw [hs]
        cases y.minus with
        | none => exact Nat.zero_le 1
        | some gap => exact le_rfl
      · rw [hm, hs]
        decide
    rw [htext] at hzero hle
    rw [hzero] at hexponent
    rw [x.countP_isSign] at hle
    constructor
    · intro hm
      rw [hm] at hle
      cases hs : x.sign.isSome with
      | false => rfl
      | true =>
        rw [hs] at hle
        change 2 + _ ≤ 1 at hle
        omega
    · intro f hf
      rw [hf, Option.elim_some] at hexponent
      cases he : f.exponent with
      | none => rfl
      | some e =>
        rw [he] at hexponent
        cases hexponent

end Apf
