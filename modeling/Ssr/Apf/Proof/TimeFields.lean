import Ssr.Apf.Proof.TimeText
import Mathlib.Data.List.Induction

/-!
# The fields of a time

What the parts of `string2time` read of a text that is given in parts (`readSeconds_text`,
`readMinutes_text`, `readHours_text`), and the parts of a text of which they have read something
(`of_readSeconds`, `of_readMinutes`, `of_readHours`).
-/

set_option autoImplicit false

namespace Apf

open Lib

variable {platform : Platform} {format : Format}

/-! ## Two digits behind a colon -/

theorem convertLoop_reverse {cs : List Char} (h : ∀ c ∈ cs, c.isDigit = true) (factor result : ℕ) :
    convertLoop cs.reverse factor result =
      some (result + cs.foldl (fun n c => 10 * n + (c.toNat - '0'.toNat)) 0 * factor) := by
  induction cs using List.reverseRecOn generalizing factor result with
  | nil => simp [convertLoop]
  | append_singleton cs c ih =>
    have hc : c.isDigit = true := h c (by simp)
    rw [List.reverse_append, List.reverse_singleton, List.singleton_append, convertLoop, if_pos hc,
      ih (fun d hd => h d (by simp [hd])), List.foldl_append]
    simp only [List.foldl_cons, List.foldl_nil]
    congr 1
    ring

theorem isDigit_of_convertLoop {cs : List Char} {factor result v : ℕ}
    (h : convertLoop cs factor result = some v) : ∀ c ∈ cs, c.isDigit = true := by
  induction cs generalizing factor result with
  | nil => exact fun _ hc => by cases hc
  | cons c cs ih =>
    rw [convertLoop] at h
    split at h
    · rename_i hc
      intro d hd
      rcases List.mem_cons.1 hd with rfl | hd
      · exact hc
      · exact ih h d hd
    · cases h

theorem colonDigits (d : Digits) (hd : d.chars.length = 2) (rest : List Char) :
    convertChars platform 2 (removeColon platform (.live (':' :: (d.chars ++ rest)) false)) =
      (.live rest false, some d.value) := by
  have hcolon : removeColon platform (.live (':' :: (d.chars ++ rest)) false) =
      .live (d.chars ++ rest) false := rfl
  have hskip : (Istream.live (d.chars ++ rest) false).skipws = false := rfl
  have hfail : (Istream.live (d.chars ++ rest) false).failbit = false := rfl
  have hfail' : (Istream.live rest false).failbit = false := rfl
  rw [hcolon]
  simp only [convertChars, hskip, hfail, Istream.read_live hd, hfail', Bool.false_eq_true, if_false,
    convertLoop_reverse d.isDigit, Nat.zero_add, Nat.mul_one]
  rfl

theorem of_convertChars {cs : List Char} {s : Istream} {n v : ℕ}
    (h : convertChars platform n (.live cs false) = (s, some v)) :
    ∃ (d : Digits) (rest : List Char), d.chars.length = n ∧ cs = d.chars ++ rest ∧ v = d.value ∧
      s = .live rest false := by
  have hskip : (Istream.live cs false).skipws = false := rfl
  have hfail : (Istream.live cs false).failbit = false := rfl
  simp only [convertChars, hskip, hfail, Bool.false_eq_true, if_false] at h
  split at h
  · cases h
  · rename_i hread
    obtain ⟨rest, hlength, hcs, hs⟩ :=
      Istream.of_read (Prod.mk.eta (p := (Istream.live cs false).read n)).symm (by simpa using hread)
    split at h
    · cases h
    · rename_i result hloop
      cases h
      have hdigits := isDigit_of_convertLoop hloop
      have hall : ∀ c ∈ ((Istream.live cs false).read n).2, c.isDigit = true := fun c hc =>
        hdigits c (List.mem_reverse.2 hc)
      refine ⟨⟨_, hall⟩, rest, hlength, hcs, ?_, hs⟩
      rw [convertLoop_reverse hall] at hloop
      simpa [Digits.value] using (Option.some.inj hloop).symm

theorem of_colonDigits {cs : List Char} {s₀ s : Istream} {v : ℕ}
    (hs₀ : s₀ = .live cs false ∨ s₀ = .after cs false)
    (h : convertChars platform 2 (removeColon platform s₀) = (s, some v)) :
    ∃ (d : Digits) (rest : List Char), d.chars.length = 2 ∧ cs = ':' :: (d.chars ++ rest) ∧
      v = d.value ∧ s = .live rest false := by
  cases cs with
  | nil => rcases hs₀ with rfl | rfl <;> cases h
  | cons c cs =>
    have hs₀ : s₀ = .live (c :: cs) false := hs₀.elim id id
    subst hs₀
    by_cases hc : c = ':'
    · subst hc
      obtain ⟨d, rest, hlength, hcs, hv, hs⟩ := of_convertChars h
      exact ⟨d, rest, hlength, congrArg _ hcs, hv, hs⟩
    · have hcolon : removeColon platform (.live (c :: cs) false) =
          { Istream.live cs false with failbit := true } := by
        simp [removeColon, removeChar, Istream.live, Istream.get, Istream.good, hc]
      rw [hcolon] at h
      cases h

/-! ## Seconds -/

theorem Spaces.stops (x : Spaces) (rest : List Char) (h : Stops rest) :
    Stops (x.chars ++ rest) := by
  intro c hc
  cases hx : x.chars with
  | nil =>
    rw [hx] at hc
    exact h c hc
  | cons d ds =>
    rw [hx] at hc
    cases hc
    exact not_continues_of_isspace (x.isspace c (hx ▸ List.mem_cons_self))

theorem stops_nil : Stops [] := fun _ hc => by cases hc

/-- A fraction begins with a point. -/
theorem fraction_of_scan {cs rest : List Char} {n : Numeral}
    (h : scan format ('.' :: cs) = (n, rest)) (hn : n.complete = true) :
    format = .rational ∧ ∃ f : Fraction, n = f.numeral := by
  cases format with
  | integer =>
    obtain ⟨rfl, -⟩ := Prod.mk.inj h
    cases hn
  | rational =>
    refine ⟨rfl, ?_⟩
    have hn : n = (scan .rational ('.' :: cs)).1 := (congrArg Prod.fst h).symm
    simp only [scan] at hn
    split at hn
    · exact ⟨⟨_, none⟩, hn⟩
    · exact ⟨⟨_, _⟩, hn⟩

/-- What is read of the seconds. -/
def Fraction.Ok (format : Format) (f : Fraction) : Prop :=
  format = .rational ∧ f.numeral.complete = true

theorem Fraction.Ok.digits_ne_nil {f : Fraction} (h : f.Ok format) : f.digits.chars ≠ [] := by
  intro hempty
  have hcomplete := h.2
  simp [Numeral.complete, Numeral.mantissa, Fraction.numeral, hempty] at hcomplete

theorem readFraction_trail (trail : Spaces) :
    ∃ s, readFraction format (.live trail.chars false) = (s, some 0) ∧ s.rest = trail.chars ∧
      s.failbit = false ∧ (s.eofbit = true → s.rest = []) := by
  obtain ⟨chars, hspace⟩ := trail
  cases chars with
  | nil => exact ⟨_, rfl, rfl, rfl, fun _ => rfl⟩
  | cons c cs =>
    have hc : c ≠ '.' := by
      rintro rfl
      have h := hspace '.' List.mem_cons_self
      cases h
    refine ⟨.live (c :: cs) false, ?_, rfl, rfl, fun h => by cases h⟩
    change (if c = '.' then _ else _) = _
    rw [if_neg hc]

theorem Spaces.stops_chars (x : Spaces) : Stops x.chars := by
  have h := x.stops [] stops_nil
  rwa [List.append_nil] at h

theorem readFraction_text {f : Fraction} (hf : f.Ok format) (trail : Spaces) :
    readFraction format (.live (f.numeral.text ++ trail.chars) false) =
      (.after trail.chars false, some f.numeral.value) := by
  obtain ⟨rfl, hcomplete⟩ := hf
  have hnil : ∀ c ∈ ([] : List Char), isspace c = true := fun _ h => by cases h
  have hextract := @Istream.extract_live isspace [] trail.chars .rational (fun _ => true) f.numeral
    hnil false (fun _ => rfl) trivial hcomplete (head_text hcomplete _) (text_ne_nil hcomplete _)
    trail.stops_chars
  rw [if_pos rfl, List.nil_append] at hextract
  have hread : readFraction .rational (.live (f.numeral.text ++ trail.chars) false) =
      (((Istream.live (f.numeral.text ++ trail.chars) false).extract isspace .rational
        fun _ => true).1, ((Istream.live (f.numeral.text ++ trail.chars) false).extract isspace
          .rational fun _ => true).2.map (·.value)) := rfl
  rw [hread, hextract]
  rfl

theorem readSeconds_text {seconds : Digits} {fraction : Option Fraction} {trail : Spaces}
    {s₀ : Istream} (hs₀ : { s₀ with skipws := false } = Istream.live
      (':' :: (seconds.chars ++ (fraction.elim [] (·.numeral.text) ++ trail.chars))) false)
    (hlength : seconds.chars.length = 2) (hle : seconds.value ≤ 59)
    (hfraction : ∀ f, fraction = some f → f.Ok format)
    (hlt : (seconds.value : ℚ) + fraction.elim 0 (·.numeral.value) < 60) :
    readSeconds platform format s₀ =
      some (seconds.value + fraction.elim 0 (·.numeral.value)) := by
  obtain ⟨s, hread, hrest, hfail, heof⟩ : ∃ s, readFraction format
      (.live (fraction.elim [] (·.numeral.text) ++ trail.chars) false) =
        (s, some (fraction.elim 0 (·.numeral.value))) ∧ s.rest = trail.chars ∧ s.failbit = false ∧
          (s.eofbit = true → s.rest = []) := by
    cases fraction with
    | none => exact readFraction_trail trail
    | some f =>
      exact ⟨_, readFraction_text (hfraction f rfl) trail, rfl, rfl, List.isEmpty_iff.1⟩
  have hend : (s.ws isspace platform.wsSentry).eofbit = true :=
    (Istream.ws_eofbit_iff _ hfail heof).2 (hrest ▸ trail.isspace)
  simp only [readSeconds, hs₀, colonDigits seconds hlength, if_neg (Nat.not_lt.2 hle), hread, hend,
    Bool.not_true, Bool.false_eq_true, if_false, ge_iff_le, if_neg (not_le.2 hlt)]

theorem of_readFraction {cs : List Char} {s : Istream} {v : ℚ}
    (h : readFraction format (.live cs false) = (s, some v)) :
    s.failbit = false ∧ (s.eofbit = true → s.rest = []) ∧
      ∃ fraction : Option Fraction, cs = fraction.elim [] (·.numeral.text) ++ s.rest ∧
        v = fraction.elim 0 (·.numeral.value) ∧ ∀ f, fraction = some f → f.Ok format := by
  cases cs with
  | nil =>
    cases h
    exact ⟨rfl, fun _ => rfl, none, rfl, rfl, fun _ h => by cases h⟩
  | cons c cs =>
    have hread : readFraction format (.live (c :: cs) false) =
        if c = '.' then
          (((Istream.live (c :: cs) false).extract isspace format fun _ => true).1,
            ((Istream.live (c :: cs) false).extract isspace format fun _ => true).2.map (·.value))
        else (.live (c :: cs) false, some 0) := rfl
    rw [hread] at h
    split at h
    · rename_i hc
      subst hc
      obtain ⟨hs, hv⟩ := Prod.mk.inj h
      obtain ⟨n, hn, rfl⟩ := Option.map_eq_some_iff.1 hv
      obtain ⟨lead, rest, -, hlead, hcs, -, hcomplete, -, hscan, hafter⟩ :=
        Istream.of_extract (Prod.ext hs hn)
      rw [hlead rfl, List.nil_append] at hcs
      rw [← hcs] at hscan
      obtain ⟨hformat, f, rfl⟩ := fraction_of_scan hscan hcomplete
      subst hafter
      refine ⟨rfl, List.isEmpty_iff.1, some f, hcs, rfl, fun g hg => ?_⟩
      cases hg
      exact ⟨hformat, hcomplete⟩
    · cases h
      exact ⟨rfl, (fun h => by cases h), none, rfl, rfl, fun _ h => by cases h⟩

theorem of_readSeconds {cs : List Char} {s₀ : Istream} {v : ℚ}
    (hs₀ : { s₀ with skipws := false } = Istream.live cs false ∨
      { s₀ with skipws := false } = Istream.after cs false)
    (h : readSeconds platform format s₀ = some v) :
    ∃ (seconds : Digits) (fraction : Option Fraction) (trail : Spaces),
      cs = ':' :: (seconds.chars ++ (fraction.elim [] (·.numeral.text) ++ trail.chars)) ∧
      seconds.chars.length = 2 ∧ seconds.value ≤ 59 ∧
      (∀ f, fraction = some f → f.Ok format) ∧
      (seconds.value : ℚ) + fraction.elim 0 (·.numeral.value) < 60 := by
  simp only [readSeconds] at h
  split at h
  · cases h
  · rename_i s wholeSeconds hdigits
    obtain ⟨seconds, rest, hlength, rfl, rfl, rfl⟩ := of_colonDigits hs₀ hdigits
    split at h
    · cases h
    · rename_i hle
      split at h
      · cases h
      · rename_i s v hread
        obtain ⟨hfail, heof, fraction, rfl, rfl, hfraction⟩ := of_readFraction hread
        split at h
        · cases h
        · rename_i hend
          split at h
          · cases h
          · rename_i hlt
            have hspace := (Istream.ws_eofbit_iff platform.wsSentry hfail heof).1
              (by simpa using hend)
            exact ⟨seconds, fraction, ⟨s.rest, hspace⟩, rfl, hlength, Nat.not_lt.1 hle, hfraction,
              not_le.1 hlt⟩

/-! ## The first field -/

/-- A sign of the first field does not make it negative. -/
def NotNegative (sign : Option Sign) (whole : Digits) : Prop :=
  sign = some .minus → whole.value = 0

theorem intValue_integer {sign : Option Sign} {whole : Digits} (h : NotNegative sign whole) :
    (Numeral.integer sign whole).intValue = whole.value := by
  rw [Numeral.intValue]
  split
  · rename_i hs
    change -((whole.value : ℕ) : ℤ) = whole.value
    rw [h hs]
    rfl
  · rfl

theorem complete_integer {sign : Option Sign} {whole : Digits} (h : whole.chars ≠ []) :
    (Numeral.integer sign whole).complete = true := by
  simp [Numeral.complete, Numeral.mantissa, Numeral.integer, h]

theorem stops_colon (cs : List Char) : Stops (':' :: cs) := by
  intro c hc
  cases hc
  decide

theorem extract_field {sign : Option Sign} {whole : Digits} (hne : whole.chars ≠ []) (gap : Spaces)
    (rest : List Char) (inRange : Numeral → Bool) :
    (Istream.live (gap.chars ++ ((Numeral.integer sign whole).text ++ ':' :: rest)) true).extract
      isspace .integer inRange =
      if inRange (.integer sign whole) then (.live (':' :: rest) true, some (.integer sign whole))
      else ({ Istream.live (':' :: rest) true with failbit := true }, none) :=
  Istream.extract_live gap.isspace true (fun h => by cases h) ⟨rfl, rfl⟩ (complete_integer hne)
    (head_text (complete_integer hne) _) (text_ne_nil (complete_integer hne) _) (stops_colon rest)

theorem of_extract_field {cs : List Char} {inRange : Numeral → Bool} {s : Istream} {n : Numeral}
    (h : (Istream.live cs true).extract isspace .integer inRange = (s, some n))
    (hvalue : ¬ n.intValue < 0) :
    ∃ (gap : Spaces) (sign : Option Sign) (whole : Digits) (rest : List Char),
      cs = gap.chars ++ ((Numeral.integer sign whole).text ++ rest) ∧ whole.chars ≠ [] ∧
      NotNegative sign whole ∧ n = .integer sign whole ∧ inRange n = true ∧
      s = .after rest true := by
  obtain ⟨lead, rest, hlead, -, hcs, ⟨hfraction, hexponent⟩, hcomplete, hrange, -, hs⟩ :=
    Istream.of_extract h
  obtain ⟨sign, whole, fraction, exponent⟩ := n
  cases hfraction
  cases hexponent
  refine ⟨⟨lead, hlead⟩, sign, whole, rest, hcs, ?_, ?_, rfl, hrange, hs⟩
  · intro hempty
    simp [Numeral.complete, Numeral.mantissa, hempty] at hcomplete
  · rintro rfl
    change ¬ (-((whole.value : ℕ) : ℤ) < 0) at hvalue
    omega

theorem readMinutes_text {sign : Option Sign} {minutes : Digits} (hne : minutes.chars ≠ [])
    (hsign : NotNegative sign minutes) (hle : minutes.value ≤ 59) (gap : Spaces)
    (rest : List Char) :
    readMinutes platform
        (.live (gap.chars ++ ((Numeral.integer sign minutes).text ++ ':' :: rest)) true) =
      (.live (':' :: rest) true, some (0, (minutes.value : ℤ))) := by
  have hvalue := intValue_integer hsign
  have hmax := platform.intMax_ge
  have hrange : platform.isInt (Numeral.integer sign minutes).intValue = true := by
    rw [hvalue, Platform.isInt, Bool.and_eq_true, decide_eq_true_eq, decide_eq_true_eq]
    omega
  have hcheck : ¬ ((minutes.value : ℤ) < 0 ∨ (minutes.value : ℤ) > 59) := by omega
  rw [readMinutes, extract_field hne, if_pos hrange]
  simp only [hvalue, if_neg hcheck]

theorem readHours_text (platform : Platform) {sign : Option Sign} {hours minutes : Digits}
    (hne : hours.chars ≠ []) (hsign : NotNegative sign hours) (hlength : minutes.chars.length = 2)
    (hle : minutes.value ≤ 59) (gap : Spaces) (rest : List Char) :
    (readHours platform (.live (gap.chars ++ ((Numeral.integer sign hours).text ++
        ':' :: (minutes.chars ++ rest))) true)) =
      if platform.isLong hours.value then
        (.live rest false, some ((hours.value : ℤ), (minutes.value : ℤ)))
      else ({ Istream.live (':' :: (minutes.chars ++ rest)) true with failbit := true }, none) := by
  have hvalue := intValue_integer hsign
  rw [readHours, extract_field hne]
  simp only [hvalue]
  by_cases hlong : platform.isLong hours.value = true
  · have hskip : { Istream.live (':' :: (minutes.chars ++ rest)) true with skipws := false } =
        Istream.live (':' :: (minutes.chars ++ rest)) false := rfl
    simp only [if_pos hlong, hskip, colonDigits minutes hlength, hvalue,
      if_neg (not_lt.2 (Int.natCast_nonneg hours.value)), if_neg (Nat.not_lt.2 hle)]
  · simp only [if_neg hlong]

theorem of_readMinutes {cs : List Char} {s : Istream} {h m : ℤ}
    (hr : readMinutes platform (.live cs true) = (s, some (h, m))) :
    ∃ (gap : Spaces) (sign : Option Sign) (minutes : Digits) (rest : List Char),
      cs = gap.chars ++ ((Numeral.integer sign minutes).text ++ rest) ∧ minutes.chars ≠ [] ∧
      NotNegative sign minutes ∧ minutes.value ≤ 59 ∧ s = .after rest true := by
  rw [readMinutes] at hr
  split at hr
  · cases hr
  · rename_i s n hn
    split at hr
    · cases hr
    · rename_i hcheck
      rw [not_or] at hcheck
      obtain ⟨gap, sign, minutes, rest, hcs, hne, hsign, rfl, -, rfl⟩ :=
        of_extract_field hn hcheck.1
      cases hr
      refine ⟨gap, sign, minutes, rest, hcs, hne, hsign, ?_, rfl⟩
      have hle := hcheck.2
      rw [intValue_integer hsign] at hle
      omega

theorem of_readHours {cs : List Char} {s : Istream} {h m : ℤ}
    (hr : readHours platform (.live cs true) = (s, some (h, m))) :
    ∃ (gap : Spaces) (sign : Option Sign) (hours minutes : Digits) (rest : List Char),
      cs = gap.chars ++ ((Numeral.integer sign hours).text ++ ':' :: (minutes.chars ++ rest)) ∧
      hours.chars ≠ [] ∧ NotNegative sign hours ∧ minutes.chars.length = 2 ∧ minutes.value ≤ 59 ∧
      platform.isLong hours.value = true ∧ s = .live rest false := by
  rw [readHours] at hr
  split at hr
  · cases hr
  · rename_i s n hn
    split at hr
    · cases hr
    · rename_i s minutes hminutes
      split at hr
      · cases hr
      · rename_i hnonneg
        split at hr
        · cases hr
        · rename_i hle
          obtain ⟨gap, sign, hours, rest, hcs, hne, hsign, rfl, hrange, rfl⟩ :=
            of_extract_field hn hnonneg
          obtain ⟨d, rest', hlength, rfl, rfl, rfl⟩ := of_colonDigits (.inr rfl) hminutes
          cases hr
          rw [intValue_integer hsign] at hrange
          exact ⟨gap, sign, hours, d, rest', hcs, hne, hsign, hlength, Nat.not_lt.1 hle, hrange,
            rfl⟩

end Apf
