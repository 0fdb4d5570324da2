import Ssr.Apf.Proof.TimeFields

/-!
# Clock values

The first field of a clock value may have a sign although a '-' has been removed before, and the
fraction may have an exponent: `ClockTime.Accepted` is wider than the grammar. These are the clock
values that are read (`ClockTime.Accepted.stringToClock_text`, `of_stringToClock`).
-/

set_option autoImplicit false

namespace Apf

open Lib

variable {platform : Platform} {format : Format}

/-! ## Clock values -/

/-- The clock values that the code reads, as long as the hours fit into a `long int`. -/
structure ClockTime.Accepted (format : Format) (x : ClockTime) : Prop where
  fields : x.Fields format
  minus : x.minus = none → x.sign ≠ some .minus
  notNegative : NotNegative x.sign (x.hours.getD x.minutes)
  complete : ∀ f, x.fraction = some f → f.numeral.complete = true
  rest_lt : x.theRest < 60

theorem ClockTime.Accepted.ok {x : ClockTime} (h : x.Accepted format) :
    ∀ f, x.fraction = some f → f.Ok format := fun f hf =>
  ⟨(h.fields.fraction f hf).1, h.complete f hf⟩

theorem readSign_of_head {cs : List Char} (h : ∀ c ∈ cs.head?, c ≠ '-') (hne : cs ≠ []) :
    readSign (.live cs true) = (.live cs true, false) := by
  cases cs with
  | nil => exact absurd rfl hne
  | cons c cs =>
    have hpeek : (Istream.live (c :: cs) true).peek = (.live (c :: cs) true, some c) := rfl
    rw [readSign, hpeek]
    split
    · rename_i heq
      cases heq
      exact absurd rfl (h '-' rfl)
    · rename_i heq
      cases heq
      rfl

theorem of_readSign (cs : List Char) :
    (readSign (.after cs true)).1.failbit = true ∨
      (∃ cs', cs = '-' :: cs' ∧ readSign (.after cs true) = (.live cs' true, true)) ∨
        cs.head? ≠ some '-' ∧ readSign (.after cs true) = (.live cs true, false) := by
  cases cs with
  | nil => exact .inl rfl
  | cons c cs =>
    by_cases hc : c = '-'
    · subst hc
      exact .inr (.inl ⟨cs, rfl, rfl⟩)
    · refine .inr (.inr ⟨fun h => hc (Option.some.inj h), readSign_of_head ?_ (by simp)⟩)
      rintro d hd
      cases hd
      exact hc

theorem readMinutes_of_failbit {s : Istream} (h : s.failbit = true) :
    (readMinutes platform s).2 = none := by
  simp [readMinutes, Istream.extract, Istream.sentry, Istream.good, h]

theorem readHours_of_failbit {s : Istream} (h : s.failbit = true) :
    (readHours platform s).2 = none := by
  simp [readHours, Istream.extract, Istream.sentry, Istream.good, h]

/-- The text behind the sign that is looked for first. -/
def ClockTime.unsigned (x : ClockTime) : List Char :=
  x.first.text ++ (x.hours.elim [] (fun _ => ':' :: x.minutes.chars) ++ x.secondsText)

theorem ClockTime.Accepted.readSign_text {x : ClockTime} (h : x.Accepted format)
    (platform : Platform) :
    ∃ gap : Spaces, readSign ((Istream.new x.text).ws isspace platform.wsSentry) =
      (.live (gap.chars ++ x.unsigned) true, x.minus.isSome) := by
  have hcomplete : x.first.complete = true := complete_integer h.fields.first
  have hne : x.unsigned ≠ [] := text_ne_nil hcomplete _
  have hhead : ∀ c ∈ x.unsigned.head?, isspace c = false := head_text hcomplete _
  have hws := fun rest (hrest : ∀ c ∈ List.head? rest, isspace c = false) =>
    Istream.ws_live platform.wsSentry true x.lead.isspace hrest
  cases hm : x.minus with
  | none =>
    refine ⟨⟨[], fun _ hc => by cases hc⟩, ?_⟩
    have htext : x.text = x.lead.chars ++ x.unsigned := by
      rw [text, hm]
      rfl
    have hnew : Istream.new x.text = .live (x.lead.chars ++ x.unsigned) true := by
      rw [htext]
      rfl
    rw [hnew, hws _ hhead, Istream.after_of_ne_nil hne]
    refine readSign_of_head (fun c hc => ?_) hne
    rcases x.first.head_text hcomplete _ c hc with ⟨sign, hsign, rfl⟩ | hdigit | rfl
    · cases sign with
      | plus => decide
      | minus => exact absurd hsign (h.minus hm)
    · exact ne_of_isDigit hdigit (by decide)
    · decide
  | some gap =>
    refine ⟨gap, ?_⟩
    have hnew : Istream.new x.text =
        .live (x.lead.chars ++ '-' :: (gap.chars ++ x.unsigned)) true := by
      rw [text, hm]
      simp only [Option.elim_some, List.cons_append, unsigned]
      rfl
    rw [hnew, hws _ fun c hc => by cases hc; decide]
    rfl

theorem Platform.isLong_zero (platform : Platform) : platform.isLong ((0 : ℕ) : ℤ) = true := by
  have hmax := platform.longMax_ge
  rw [Platform.isLong, Bool.and_eq_true, decide_eq_true_eq, decide_eq_true_eq]
  omega

theorem ClockTime.Accepted.stringToClock_text {x : ClockTime} (h : x.Accepted format)
    (platform : Platform) :
    stringToClock platform format (if x.hours.isSome then 2 else 1) x.text =
      if platform.isLong x.hoursValue then
        some (x.minus.isSome, (x.hoursValue : ℤ), (x.minutes.value : ℤ), x.theRest)
      else none := by
  obtain ⟨gap, hsign⟩ := h.readSign_text platform
  have hseconds : ∀ s₀ : Istream, { s₀ with skipws := false } = Istream.live x.secondsText false →
      readSeconds platform format s₀ = some x.theRest := fun s₀ hs₀ =>
    readSeconds_text hs₀ h.fields.seconds h.fields.seconds_le h.ok h.rest_lt
  rw [stringToClock, hsign]
  cases hh : x.hours with
  | none =>
    have hminutes : x.hours.getD x.minutes = x.minutes := by rw [hh]; rfl
    have hne := h.fields.first
    have hnot := h.notNegative
    rw [hminutes] at hne hnot
    have hunsigned : x.unsigned = (Numeral.integer x.sign x.minutes).text ++ x.secondsText := by
      rw [unsigned, first, hminutes, hh]
      rfl
    have hzero : x.hoursValue = 0 := by
      rw [hoursValue, hh]
      rfl
    have hread : readMinutes platform (.live (gap.chars ++
        ((Numeral.integer x.sign x.minutes).text ++ x.secondsText)) true) =
          (.live x.secondsText true, some (0, (x.minutes.value : ℤ))) :=
      readMinutes_text hne hnot h.fields.minutes_le gap _
    rw [hzero, if_pos platform.isLong_zero, hunsigned]
    simp only [Option.isSome_none, Bool.false_eq_true, if_false, if_true]
    rw [hread]
    simp only [hseconds (.live x.secondsText true) rfl]
    rfl
  | some hours =>
    have hhours : x.hours.getD x.minutes = hours := by rw [hh]; rfl
    have hne := h.fields.first
    have hnot := h.notNegative
    rw [hhours] at hne hnot
    have hunsigned : x.unsigned =
        (Numeral.integer x.sign hours).text ++ ':' :: (x.minutes.chars ++ x.secondsText) := by
      rw [unsigned, first, hhours, hh]
      rfl
    have hvalue : x.hoursValue = hours.value := by
      rw [hoursValue, hh]
      rfl
    have hread := readHours_text platform hne hnot (h.fields.minutes (by rw [hh]; rfl))
      h.fields.minutes_le gap x.secondsText
    rw [hvalue, hunsigned]
    simp only [Option.isSome_some, if_true, OfNat.ofNat_ne_one, if_false]
    rw [hread]
    by_cases hlong : platform.isLong hours.value = true
    · simp only [if_pos hlong, hseconds (.live x.secondsText false) rfl]
      rfl
    · simp only [if_neg hlong]

/-- What `readSign` leaves, unless the reading of the first field is going to fail. -/
theorem of_readSign_text (platform : Platform) (text : List Char) :
    (readSign ((Istream.new text).ws isspace platform.wsSentry)).1.failbit = true ∨
      ∃ (lead : Spaces) (cs : List Char) (negative : Bool),
        text = lead.chars ++ (if negative then '-' :: cs else cs) ∧
        readSign ((Istream.new text).ws isspace platform.wsSentry) = (.live cs true, negative) ∧
        (negative = false → ∀ c ∈ cs.head?, isspace c = false ∧ c ≠ '-') := by
  have hws : (Istream.new text).ws isspace platform.wsSentry =
      .after (text.dropWhile isspace) true := Istream.ws_eq platform.wsSentry true text
  let lead : Spaces := ⟨text.takeWhile isspace, fun _ hc => List.mem_takeWhile_imp hc⟩
  have htext : text = lead.chars ++ text.dropWhile isspace :=
    List.takeWhile_append_dropWhile.symm
  rw [hws]
  rcases of_readSign (text.dropWhile isspace) with hfail | ⟨cs, hcs, hread⟩ | ⟨hhead, hread⟩
  · exact .inl hfail
  · exact .inr ⟨lead, cs, true, by rw [← hcs] at *; exact htext, hread, fun h => by cases h⟩
  · refine .inr ⟨lead, text.dropWhile isspace, false, htext, hread, fun _ c hc => ⟨?_, ?_⟩⟩
    · have hnot := List.head?_dropWhile_not isspace text
      rw [hc] at hnot
      exact hnot
    · rintro rfl
      exact hhead hc

theorem exists_minus {cs body : List Char} {gap : Spaces} (hcs : cs = gap.chars ++ body)
    {negative : Bool} (h : negative = false → ∀ c ∈ cs.head?, isspace c = false ∧ c ≠ '-') :
    ∃ minus : Option Spaces,
      (if negative then '-' :: cs else cs) = minus.elim [] ('-' :: ·.chars) ++ body ∧
        (minus = none → ∀ c ∈ body.head?, c ≠ '-') := by
  cases negative with
  | true =>
    refine ⟨some gap, ?_, fun h => by cases h⟩
    rw [hcs]
    rfl
  | false =>
    have hgap : gap.chars = [] := by
      cases hchars : gap.chars with
      | nil => rfl
      | cons c chars =>
        have hspace := gap.isspace c (hchars ▸ List.mem_cons_self)
        rw [hchars] at hcs
        rw [(h rfl c (by rw [hcs]; rfl)).1] at hspace
        cases hspace
    rw [hgap, List.nil_append] at hcs
    exact ⟨none, hcs, fun _ c hc => (h rfl c (hcs ▸ hc)).2⟩

theorem not_minus_of_head {sign : Option Sign} {whole : Digits} {rest : List Char}
    (h : ∀ c ∈ ((Numeral.integer sign whole).text ++ rest).head?, c ≠ '-') :
    sign ≠ some .minus := by
  rintro rfl
  exact h '-' rfl rfl

/-- What `of_readMinutes` or `of_readHours` and `of_readSeconds` say of a value is enough. -/
theorem ClockTime.Accepted.of_parts {x : ClockTime}
    (hne : (x.hours.getD x.minutes).chars ≠ [])
    (hminutes : x.hours.isSome → x.minutes.chars.length = 2) (hle : x.minutes.value ≤ 59)
    (hnot : NotNegative x.sign (x.hours.getD x.minutes))
    (hminus : x.minus = none → x.sign ≠ some .minus) (hlength : x.seconds.chars.length = 2)
    (hsle : x.seconds.value ≤ 59) (hfraction : ∀ f, x.fraction = some f → f.Ok format)
    (hlt : x.theRest < 60) : x.Accepted format where
  fields := {
    first := hne
    minutes := hminutes
    minutes_le := hle
    seconds := hlength
    seconds_le := hsle
    fraction := fun f hf => ⟨(hfraction f hf).1, (hfraction f hf).digits_ne_nil⟩ }
  minus := hminus
  notNegative := hnot
  complete f hf := (hfraction f hf).2
  rest_lt := hlt

theorem of_stringToClock {k : ℕ} {text : List Char} {r : Bool × ℤ × ℤ × ℚ}
    (h : stringToClock platform format k text = some r) :
    ∃ x : ClockTime, x.Accepted format ∧ x.text = text ∧
      platform.isLong x.hoursValue = true ∧ (x.hours.isSome = true ↔ k ≠ 1) := by
  simp only [stringToClock] at h
  split at h
  · cases h
  · rename_i s hours minutes hread
    obtain ⟨theRest, hseconds, -⟩ := Option.map_eq_some_iff.1 h
    rcases of_readSign_text platform text with hfail |
      ⟨lead, cs, negative, htext, hsign, hhead⟩
    · split at hread
      · rw [← Prod.mk.eta (p := readMinutes _ _), readMinutes_of_failbit hfail] at hread
        cases hread
      · rw [← Prod.mk.eta (p := readHours _ _), readHours_of_failbit hfail] at hread
        cases hread
    · rw [hsign] at hread
      split at hread
      · rename_i hk
        obtain ⟨gap, sign, m, rest, hcs, hne, hnot, hle, rfl⟩ := of_readMinutes hread
        obtain ⟨seconds, fraction, trail, rfl, hlength, hsle, hfraction, hlt⟩ :=
          of_readSeconds (.inr rfl) hseconds
        obtain ⟨minus, hminus, hbody⟩ := exists_minus hcs hhead
        refine ⟨⟨lead, minus, sign, none, m, seconds, fraction, trail⟩, ?_, ?_,
          platform.isLong_zero, ?_⟩
        · exact .of_parts hne (fun h => by cases h) hle hnot (fun hm => not_minus_of_head (hbody hm))
            hlength hsle hfraction hlt
        · rw [htext, hminus]
          rfl
        · simp [hk]
      · rename_i hk
        obtain ⟨gap, sign, hrs, m, rest, hcs, hne, hnot, hmlength, hle, hlong, rfl⟩ :=
          of_readHours hread
        obtain ⟨seconds, fraction, trail, rfl, hlength, hsle, hfraction, hlt⟩ :=
          of_readSeconds (.inl rfl) hseconds
        obtain ⟨minus, hminus, hbody⟩ := exists_minus hcs hhead
        refine ⟨⟨lead, minus, sign, some hrs, m, seconds, fraction, trail⟩, ?_, ?_, hlong, ?_⟩
        · exact .of_parts hne (fun _ => hmlength) hle hnot
            (fun hm => not_minus_of_head (hbody hm)) hlength hsle hfraction hlt
        · rw [htext, hminus]
          rfl
        · simp [hk]

theorem ClockTime.Accepted.colons_text {x : ClockTime} (h : x.Accepted format) :
    colons x.text = if x.hours.isSome then 2 else 1 := by
  rw [colons_of_head, x.countP_isColon]
  · split <;> rfl
  · intro c hc
    have hnumeral := x.first.head_text (complete_integer h.fields.first)
      (x.hours.elim [] (fun _ => ':' :: x.minutes.chars) ++ x.secondsText) c
    rw [text] at hc
    cases hlead : x.lead.chars with
    | cons d ds =>
      rw [hlead] at hc
      cases hc
      have hspace := x.lead.isspace c (hlead ▸ List.mem_cons_self)
      rintro rfl
      cases hspace
    | nil =>
      rw [hlead, List.nil_append] at hc
      cases hm : x.minus with
      | some gap =>
        rw [hm] at hc
        cases hc
        decide
      | none =>
        rw [hm] at hc
        rcases hnumeral hc with ⟨sign, -, rfl⟩ | hdigit | rfl
        · cases sign <;> decide
        · exact ne_of_isDigit hdigit (by decide)
        · decide

end Apf
