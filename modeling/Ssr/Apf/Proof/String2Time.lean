import Ssr.Apf.Proof.ClockTime
import Ssr.Apf.Proof.NumberTime

/-!
# What `string2time` accepts

Everything that is not rejected is a number with an optional unit or a clock value in a wider sense
(`of_string2time`). `string2time` follows the grammar exactly on the texts that are not `Affected`
(`string2time_follows_iff`); a text that is affected is not also the text of something in the
grammar.
-/

set_option autoImplicit false

namespace Apf

open Lib

variable {platform : Platform} {format : Format}

/-! ## What the code does and what it should do -/

/-- The hours with the sign of the time. -/
def ClockTime.signedHours (x : ClockTime) : ℤ :=
  if x.minus.isSome then -(x.hoursValue : ℤ) else x.hoursValue

theorem ClockTime.Accepted.string2time_text {x : ClockTime} (h : x.Accepted format) (output : ℚ) :
    string2time platform format x.text output =
      if platform.isLong x.hoursValue then
        if platform.isLong (x.signedHours * 60 * 60) then some (true, x.value) else none
      else some (false, output) := by
  have hcolons := h.colons_text
  have hclock := h.stringToClock_text platform
  have hne : colons x.text ≠ 0 := by
    rw [hcolons]
    split <;> decide
  have htwo : colons x.text = 1 ∨ colons x.text = 2 := by
    rw [hcolons]
    split
    · exact .inr rfl
    · exact .inl rfl
  rw [← hcolons] at hclock
  have hvalue : ((x.signedHours * 60 * 60 : ℤ) : ℚ) +
      (((if x.minus.isSome = true then -(x.minutes.value : ℤ) else x.minutes.value) * 60 : ℤ) : ℚ) +
        (if x.minus.isSome = true then -x.theRest else x.theRest) = x.value := by
    rw [value, signedHours]
    by_cases hm : x.minus.isSome = true
    · simp only [if_pos hm]
      push_cast
      ring
    · simp only [if_neg hm]
      push_cast
      ring
  rw [string2time, if_neg hne, if_pos htwo, hclock]
  by_cases hlong : platform.isLong x.hoursValue = true
  · simp only [if_pos hlong]
    rw [← hvalue]
    rfl
  · simp only [if_neg hlong]

theorem NumberTime.Grammar.string2time_text {x : NumberTime} (h : x.Grammar format) (output : ℚ) :
    (platform.wsSentry = true ∧ x.AtEnd →
        string2time platform format x.text output = some (false, output)) ∧
      (¬ (platform.wsSentry = true ∧ x.AtEnd) →
        string2time platform format x.text output = some (true, x.value)) := by
  obtain ⟨hend, hnumber⟩ := h.stringToNumber_text platform
  rw [string2time, if_pos x.colons_text]
  exact ⟨fun hx => by rw [hend hx], fun hx => by rw [hnumber hx]⟩

/-- Everything that is not rejected is a number or an accepted clock value. -/
theorem of_string2time {s : List Char} {output : ℚ}
    (h : string2time platform format s output ≠ some (false, output)) :
    (∃ x : NumberTime, x.Grammar format ∧ x.text = s) ∨
      ∃ x : ClockTime, x.Accepted format ∧ x.text = s ∧ platform.isLong x.hoursValue = true := by
  rw [string2time] at h
  split at h
  · split at h
    · exact absurd rfl h
    · rename_i hnumber
      exact .inl (of_stringToNumber hnumber)
  · split at h
    · split at h
      · exact absurd rfl h
      · rename_i hclock
        obtain ⟨x, hx, htext, hlong, -⟩ := of_stringToClock hclock
        exact .inr ⟨x, hx, htext, hlong⟩
    · exact absurd rfl h

theorem Fraction.complete {f : Fraction} (hdigits : f.digits.chars ≠ [])
    (hexponent : f.exponent = none) : f.numeral.complete = true := by
  simp [Numeral.complete, Numeral.mantissa, numeral, hdigits, hexponent]

theorem Fraction.value_lt_one {f : Fraction} (hexponent : f.exponent = none) :
    f.numeral.value < 1 := by
  have hvalue : f.numeral.value = f.digits.fraction := by
    simp [Numeral.value, numeral, hexponent, Digits.value]
  rw [hvalue]
  exact f.digits.fraction_lt_one

theorem ClockTime.Grammar.accepted {x : ClockTime} (h : x.Grammar format) : x.Accepted format := by
  have hsign : x.sign ≠ some .minus := by
    rcases h.sign with hs | ⟨-, hs⟩ <;> rw [hs] <;> exact fun h => by cases h
  refine ⟨h.fields, fun _ => hsign, fun hs => absurd hs hsign, fun f hf => ?_, ?_⟩
  · exact Fraction.complete (h.fields.fraction f hf).2 (h.exponent f hf)
  · have hseconds : (x.seconds.value : ℚ) ≤ 59 := by exact_mod_cast h.fields.seconds_le
    rw [theRest]
    cases hf : x.fraction with
    | none =>
      rw [Option.elim_none]
      linarith
    | some f =>
      have hlt := Fraction.value_lt_one (h.exponent f hf)
      rw [Option.elim_some]
      linarith

/-- `string2time` accepts `s` exactly if it has a meaning, and then the output is this time. -/
def Follows (platform : Platform) (format : Format) (s : List Char) : Prop :=
  ∀ output,
    (∀ t, Meaning format s t → string2time platform format s output = some (true, t)) ∧
      ((¬ ∃ t, Meaning format s t) → string2time platform format s output = some (false, output))

/-- The texts that are handled in another way. -/
inductive Affected (platform : Platform) (format : Format) (s : List Char) : Prop
  /-- There is another sign behind the '-'. -/
  | secondSign (x : ClockTime) (accepted : x.Accepted format) (text : x.text = s)
      (hours : platform.isLong x.hoursValue = true) (minus : x.minus.isSome = true)
      (sign : x.sign.isSome = true)
  /-- The fraction has an exponent. -/
  | exponent (x : ClockTime) (accepted : x.Accepted format) (text : x.text = s)
      (hours : platform.isLong x.hoursValue = true) (f : Fraction) (fraction : x.fraction = some f)
      (exponent : f.exponent.isSome = true)
  /-- The hours in seconds do not fit into a `long int`. -/
  | hours (x : ClockTime) (grammar : x.Grammar format) (text : x.text = s)
      (overflow : platform.isLong (x.signedHours * 60 * 60) = false)
  /-- There is no white space behind a number, and `ws` fails at the end. -/
  | atEnd (x : NumberTime) (grammar : x.Grammar format) (text : x.text = s)
      (wsSentry : platform.wsSentry = true) (atEnd : x.AtEnd)

/-! ### The exact condition -/

theorem isLong_hoursValue {x : ClockTime}
    (h : platform.isLong (x.signedHours * 60 * 60) = true) :
    platform.isLong x.hoursValue = true := by
  have hmax := platform.longMax_ge
  have hsigned : x.signedHours = -(x.hoursValue : ℤ) ∨ x.signedHours = x.hoursValue := by
    rw [ClockTime.signedHours]
    split
    · exact .inl rfl
    · exact .inr rfl
  simp only [Platform.isLong, Bool.and_eq_true, decide_eq_true_eq] at h ⊢
  rcases hsigned with hs | hs <;> rw [hs] at h <;> omega

theorem follows_of_not_affected {s : List Char} (h : ¬ Affected platform format s) :
    Follows platform format s := by
  intro output
  constructor
  · rintro t (⟨x, hx, rfl, rfl⟩ | ⟨x, hx, rfl, rfl⟩)
    · exact (hx.string2time_text output).2 fun ⟨hws, hend⟩ => h (.atEnd x hx rfl hws hend)
    · cases hlong : platform.isLong (x.signedHours * 60 * 60) with
      | false => exact absurd (Affected.hours x hx rfl hlong) h
      | true =>
        rw [hx.accepted.string2time_text, if_pos (isLong_hoursValue hlong), if_pos hlong]
  · intro hnone
    by_contra hrejected
    rcases of_string2time hrejected with ⟨x, hx, rfl⟩ | ⟨x, hx, rfl, hlong⟩
    · exact hnone ⟨_, .inl ⟨x, hx, rfl, rfl⟩⟩
    · -- it is accepted, so it has a second sign or an exponent
      have hsign : x.sign = none ∨ x.minus = none ∧ x.sign = some .plus := by
        cases hs : x.sign with
        | none => exact .inl rfl
        | some sign =>
          refine .inr ?_
          cases hm : x.minus with
          | none =>
            refine ⟨rfl, ?_⟩
            cases sign with
            | plus => rfl
            | minus => exact absurd hs (hx.minus hm)
          | some gap =>
            exact absurd (.secondSign x hx rfl hlong (by rw [hm]; rfl) (by rw [hs]; rfl)) h
      have hexponent : ∀ f, x.fraction = some f → f.exponent = none := by
        intro f hf
        cases he : f.exponent with
        | none => rfl
        | some e => exact absurd (.exponent x hx rfl hlong f hf (by rw [he]; rfl)) h
      exact hnone ⟨_, .inr ⟨x, ⟨hx.fields, hsign, hexponent⟩, rfl, rfl⟩⟩

/-- An accepted clock value that is not in the grammar is not rejected. -/
theorem not_follows_of_accepted {x : ClockTime} (hx : x.Accepted format)
    (hlong : platform.isLong x.hoursValue = true)
    (hnone : ¬ ∃ t, Meaning format x.text t) : ¬ Follows platform format x.text := by
  intro hfollows
  have hrejected := (hfollows 0).2 hnone
  rw [hx.string2time_text, if_pos hlong] at hrejected
  split at hrejected <;> cases hrejected

theorem Affected.not_follows {s : List Char} (h : Affected platform format s) :
    ¬ Follows platform format s := by
  cases h with
  | secondSign x hx htext hlong hminus hsign =>
    subst htext
    refine not_follows_of_accepted hx hlong fun ⟨t, ht⟩ => ?_
    rw [(ClockTime.of_meaning ht).1 hminus] at hsign
    cases hsign
  | exponent x hx htext hlong f hf hexponent =>
    subst htext
    refine not_follows_of_accepted hx hlong fun ⟨t, ht⟩ => ?_
    rw [(ClockTime.of_meaning ht).2 f hf] at hexponent
    cases hexponent
  | hours x hx htext hoverflow =>
    subst htext
    intro hfollows
    have haccepted := (hfollows 0).1 x.value (.inr ⟨x, hx, rfl, rfl⟩)
    rw [hx.accepted.string2time_text, hoverflow, if_neg Bool.false_ne_true] at haccepted
    split at haccepted <;> cases haccepted
  | atEnd x hx htext hws hend =>
    subst htext
    intro hfollows
    have haccepted := (hfollows 0).1 x.value (.inl ⟨x, hx, rfl, rfl⟩)
    rw [(hx.string2time_text 0).1 ⟨hws, hend⟩] at haccepted
    cases haccepted

/-- **`string2time` accepts exactly its grammar** for all texts but four kinds: clock values with a
second sign, with an exponent or with too many hours, and numbers at the end of the text if `ws`
fails there. -/
theorem string2time_follows_iff (platform : Platform) (format : Format) (s : List Char) :
    Follows platform format s ↔ ¬ Affected platform format s :=
  ⟨fun h haffected => haffected.not_follows h, follows_of_not_affected⟩

/-- "-+1:30" is taken for a minute and a half, before zero. -/
theorem string2time_twoSigns :
    let platform : Platform :=
      ⟨false, 2147483647, 9223372036854775807, by decide, by decide⟩
    string2time platform .rational "-+1:30".toList 0 = some (true, -90) ∧
      ¬ Follows platform .rational "-+1:30".toList := by
  intro platform
  let x : ClockTime :=
    { lead := ⟨[], fun _ h => by cases h⟩
      minus := some ⟨[], fun _ h => by cases h⟩
      sign := some .plus
      hours := none
      minutes := ⟨['1'], List.all_eq_true.1 rfl⟩
      seconds := ⟨['3', '0'], List.all_eq_true.1 rfl⟩
      fraction := none
      trail := ⟨[], fun _ h => by cases h⟩ }
  have haccepted : x.Accepted .rational :=
    { fields := ⟨by decide, (fun h => by cases h), by decide, by decide, by decide,
        fun _ h => by cases h⟩
      minus := fun h => by cases h
      notNegative := fun h => by cases h
      complete := fun _ h => by cases h
      rest_lt := by decide +kernel }
  have hlong : platform.isLong x.hoursValue = true := by decide
  refine ⟨by decide +kernel, ?_⟩
  exact (Affected.secondSign x haccepted rfl hlong rfl rfl).not_follows

end Apf
