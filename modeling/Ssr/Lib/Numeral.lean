import Mathlib.Algebra.Order.Field.Rat
import Mathlib.Data.List.Induction
import Mathlib.Data.List.TakeWhile
import Mathlib.Tactic.Linarith
import Mathlib.Tactic.Positivity

/-!
# Numerals

Texts of numbers in the decimal system, as a stream extracts them in the "C" locale. `scan` takes
the longest beginning that looks like a numeral; it loses nothing (`text_scan`), and a complete
numeral is found again when something else follows it (`scan_text`). What has been scanned is a
number only if it is `complete`: "1e" and "." are not.
-/

set_option autoImplicit false

namespace Lib

/-! ## Texts -/

inductive Sign
  | plus
  | minus
  deriving DecidableEq, Repr

namespace Sign

def char : Sign → Char
  | .plus => '+'
  | .minus => '-'

def text : Option Sign → List Char
  | none => []
  | some s => [s.char]

end Sign

def isSign (c : Char) : Bool := c = '+' || c = '-'

structure Digits where
  chars : List Char
  isDigit : ∀ c ∈ chars, c.isDigit = true

namespace Digits

def value (d : Digits) : ℕ := d.chars.foldl (fun n c => 10 * n + (c.toNat - '0'.toNat)) 0

/-- The value of the digits after a decimal point. -/
def fraction (d : Digits) : ℚ := d.value / 10 ^ d.chars.length

end Digits

structure Exponent where
  e : Char
  isE : e = 'e' ∨ e = 'E'
  sign : Option Sign
  digits : Digits

def Exponent.text (x : Exponent) : List Char := x.e :: (Sign.text x.sign ++ x.digits.chars)

def Exponent.scale (x : Exponent) (v : ℚ) : ℚ :=
  if x.sign = some .minus then v / 10 ^ x.digits.value else v * 10 ^ x.digits.value

structure Numeral where
  sign : Option Sign
  whole : Digits
  fraction : Option Digits
  exponent : Option Exponent

/-- What kind of number a numeral is scanned for. -/
inductive Format
  | integer
  | rational
  deriving DecidableEq, Repr

namespace Numeral

/-- An integer. -/
def integer (sign : Option Sign) (whole : Digits) : Numeral :=
  { sign, whole, fraction := none, exponent := none }

def fractionText : Option Digits → List Char
  | none => []
  | some d => '.' :: d.chars

def exponentText : Option Exponent → List Char
  | none => []
  | some x => x.text

def text (n : Numeral) : List Char :=
  Sign.text n.sign ++ (n.whole.chars ++ (fractionText n.fraction ++ exponentText n.exponent))

/-- The digits before and after the decimal point. -/
def mantissa (n : Numeral) : List Char := n.whole.chars ++ n.fraction.elim [] (·.chars)

/-- All digits that have to be there are there. -/
def complete (n : Numeral) : Bool :=
  !n.mantissa.isEmpty && n.exponent.all fun x => !x.digits.chars.isEmpty

def HasFormat : Format → Numeral → Prop
  | .integer, n => n.fraction = none ∧ n.exponent = none
  | .rational, _ => True

def value (n : Numeral) : ℚ :=
  let v : ℚ := n.whole.value + n.fraction.elim 0 (·.fraction)
  let v := n.exponent.elim v (·.scale v)
  if n.sign = some .minus then -v else v

/-- The value of an integer. -/
def intValue (n : Numeral) : ℤ := if n.sign = some .minus then -n.whole.value else n.whole.value

end Numeral

/-! ## Scanning -/

def scanSign : List Char → Option Sign × List Char
  | [] => (none, [])
  | c :: cs =>
    if c = '+' then (some .plus, cs) else if c = '-' then (some .minus, cs) else (none, c :: cs)

def scanDigits (cs : List Char) : Digits × List Char :=
  (⟨cs.takeWhile Char.isDigit, fun _ h => List.mem_takeWhile_imp h⟩, cs.dropWhile Char.isDigit)

def scanFraction : List Char → Option Digits × List Char
  | [] => (none, [])
  | c :: cs =>
    if c = '.' then
      let digits := scanDigits cs
      (some digits.1, digits.2)
    else (none, c :: cs)

def scanExponent : List Char → Option Exponent × List Char
  | [] => (none, [])
  | c :: cs =>
    if h : c = 'e' ∨ c = 'E' then
      let sign := scanSign cs
      let digits := scanDigits sign.2
      (some ⟨c, h, sign.1, digits.1⟩, digits.2)
    else (none, c :: cs)

/-- The longest beginning that looks like a numeral, and what follows it. -/
def scan (format : Format) (cs : List Char) : Numeral × List Char :=
  let sign := scanSign cs
  let whole := scanDigits sign.2
  match format with
  | .integer => (⟨sign.1, whole.1, none, none⟩, whole.2)
  | .rational =>
    let fraction := scanFraction whole.2
    -- there is no exponent without digits before it
    if (⟨sign.1, whole.1, fraction.1, none⟩ : Numeral).mantissa.isEmpty then
      (⟨sign.1, whole.1, fraction.1, none⟩, fraction.2)
    else
      let exponent := scanExponent fraction.2
      (⟨sign.1, whole.1, fraction.1, exponent.1⟩, exponent.2)

/-! ## Nothing is lost -/

theorem text_scanSign (cs : List Char) : Sign.text (scanSign cs).1 ++ (scanSign cs).2 = cs := by
  cases cs with
  | nil => rfl
  | cons c cs =>
    rw [scanSign]
    split
    · rename_i h
      rw [h]
      rfl
    · split
      · rename_i h
        rw [h]
        rfl
      · rfl

theorem text_scanDigits (cs : List Char) : (scanDigits cs).1.chars ++ (scanDigits cs).2 = cs :=
  List.takeWhile_append_dropWhile

theorem text_scanFraction (cs : List Char) :
    Numeral.fractionText (scanFraction cs).1 ++ (scanFraction cs).2 = cs := by
  cases cs with
  | nil => rfl
  | cons c cs =>
    rw [scanFraction]
    split
    · rename_i h
      rw [h]
      exact congrArg ('.' :: ·) (text_scanDigits cs)
    · rfl

theorem text_scanExponent (cs : List Char) :
    Numeral.exponentText (scanExponent cs).1 ++ (scanExponent cs).2 = cs := by
  cases cs with
  | nil => rfl
  | cons c cs =>
    rw [scanExponent]
    split
    · have h := text_scanSign cs
      rw [← text_scanDigits (scanSign cs).2, ← List.append_assoc] at h
      exact congrArg (c :: ·) h
    · rfl

theorem text_scan (format : Format) (cs : List Char) :
    (scan format cs).1.text ++ (scan format cs).2 = cs := by
  have hsign := text_scanSign cs
  have hwhole := text_scanDigits (scanSign cs).2
  have hfraction := text_scanFraction (scanDigits (scanSign cs).2).2
  rw [← hwhole] at hsign
  cases format with
  | integer =>
    rw [scan, Numeral.text]
    simpa [Numeral.fractionText, Numeral.exponentText] using hsign
  | rational =>
    rw [← hfraction] at hsign
    simp only [scan]
    split
    · simpa [Numeral.text, Numeral.exponentText] using hsign
    · rw [← text_scanExponent (scanFraction (scanDigits (scanSign cs).2).2).2] at hsign
      simpa [Numeral.text] using hsign

theorem scan_hasFormat (format : Format) (cs : List Char) :
    (scan format cs).1.HasFormat format := by
  cases format with
  | integer => exact ⟨rfl, rfl⟩
  | rational => trivial

/-! ## Values -/

theorem foldl_digits_lt {cs : List Char} (h : ∀ c ∈ cs, c.isDigit = true) :
    cs.foldl (fun n c => 10 * n + (c.toNat - '0'.toNat)) 0 < 10 ^ cs.length := by
  induction cs using List.reverseRecOn with
  | nil => exact Nat.one_pos
  | append_singleton cs c ih =>
    have hc := h c (by simp)
    have hdigit : c.toNat - '0'.toNat ≤ 9 := by
      simp only [Char.isDigit, Bool.and_eq_true, decide_eq_true_eq, UInt32.le_iff_toNat_le] at hc
      exact Nat.sub_le_of_le_add hc.2
    have hlt := ih fun d hd => h d (by simp [hd])
    rw [List.foldl_append, List.foldl_cons, List.foldl_nil, List.length_append,
      List.length_singleton, pow_succ]
    omega

theorem Digits.fraction_lt_one (d : Digits) : d.fraction < 1 := by
  rw [fraction, div_lt_one (by positivity)]
  exact_mod_cast foldl_digits_lt d.isDigit

/-! ## A numeral is found again -/

/-- A character that might go on with a numeral. -/
def continues (c : Char) : Bool := c.isDigit || c = '.' || c = 'e' || c = 'E'

/-- No numeral goes on here. -/
def Stops (rest : List Char) : Prop := ∀ c ∈ rest.head?, continues c = false

theorem ne_of_isDigit {c d : Char} (hc : c.isDigit = true) (hd : d.isDigit = false) : c ≠ d := by
  rintro rfl
  rw [hc] at hd
  cases hd

theorem isSign_of_isDigit {c : Char} (hc : c.isDigit = true) : isSign c = false := by
  simp only [isSign, Bool.or_eq_false_iff, decide_eq_false_iff_not]
  exact ⟨ne_of_isDigit hc (by decide), ne_of_isDigit hc (by decide)⟩

theorem isDigit_of_continues {c : Char} (h : continues c = false) : c.isDigit = false := by
  simp only [continues, Bool.or_eq_false_iff] at h
  exact h.1.1.1

theorem Digits.head (d : Digits) (hd : d.chars ≠ []) (rest : List Char) :
    ∀ c ∈ (d.chars ++ rest).head?, c.isDigit = true := by
  intro c hc
  rw [List.head?_append, List.head?_eq_some_head hd] at hc
  cases hc
  exact d.isDigit _ (List.head_mem hd)

theorem scanSign_text {s : Option Sign} {rest : List Char}
    (h : s = none → ∀ c ∈ rest.head?, isSign c = false) :
    scanSign (Sign.text s ++ rest) = (s, rest) := by
  cases s with
  | none =>
    cases rest with
    | nil => rfl
    | cons c rest =>
      have hc := h rfl c rfl
      simp only [isSign, Bool.or_eq_false_iff, decide_eq_false_iff_not] at hc
      change scanSign (c :: rest) = _
      rw [scanSign, if_neg hc.1, if_neg hc.2]
  | some s => cases s <;> rfl

theorem scanDigits_append {d : Digits} {rest : List Char}
    (h : ∀ c ∈ rest.head?, c.isDigit = false) : scanDigits (d.chars ++ rest) = (d, rest) := by
  obtain ⟨cs, hcs⟩ := d
  have hstop : rest.takeWhile Char.isDigit = [] ∧ rest.dropWhile Char.isDigit = rest := by
    cases rest with
    | nil => exact ⟨rfl, rfl⟩
    | cons c rest =>
      have hc := h c rfl
      exact ⟨List.takeWhile_cons_of_neg (by simp [hc]), List.dropWhile_cons_of_neg (by simp [hc])⟩
  simp only [scanDigits, List.takeWhile_append_of_pos hcs, List.dropWhile_append_of_pos hcs,
    hstop.1, hstop.2, List.append_nil]

theorem scanFraction_text {f : Option Digits} {rest : List Char}
    (h : ∀ c ∈ rest.head?, c.isDigit = false ∧ c ≠ '.') :
    scanFraction (Numeral.fractionText f ++ rest) = (f, rest) := by
  cases f with
  | none =>
    cases rest with
    | nil => rfl
    | cons c rest =>
      change scanFraction (c :: rest) = _
      rw [scanFraction, if_neg (h c rfl).2]
  | some d =>
    change scanFraction ('.' :: (d.chars ++ rest)) = _
    rw [scanFraction, if_pos rfl, scanDigits_append fun c hc => (h c hc).1]

theorem scanExponent_text {x : Option Exponent} {rest : List Char} (h : Stops rest)
    (hx : x.all (fun x => !x.digits.chars.isEmpty) = true) :
    scanExponent (Numeral.exponentText x ++ rest) = (x, rest) := by
  cases x with
  | none =>
    cases rest with
    | nil => rfl
    | cons c rest =>
      have hc := h c rfl
      simp only [continues, Bool.or_eq_false_iff, decide_eq_false_iff_not] at hc
      change scanExponent (c :: rest) = _
      rw [scanExponent, dif_neg (not_or.2 ⟨hc.1.2, hc.2⟩)]
  | some x =>
    obtain ⟨e, he, sign, digits⟩ := x
    have hdigits : digits.chars ≠ [] := by simpa using hx
    have hsign : scanSign (Sign.text sign ++ (digits.chars ++ rest)) =
        (sign, digits.chars ++ rest) :=
      scanSign_text fun _ c hc => isSign_of_isDigit (digits.head hdigits rest c hc)
    change scanExponent (e :: (Sign.text sign ++ digits.chars ++ rest)) = _
    rw [scanExponent, dif_pos he, List.append_assoc, hsign]
    simp only [scanDigits_append fun c hc => isDigit_of_continues (h c hc)]

theorem head_exponentText {x : Option Exponent} {rest : List Char} (h : Stops rest) :
    ∀ c ∈ (Numeral.exponentText x ++ rest).head?, c.isDigit = false ∧ c ≠ '.' := by
  intro c hc
  cases x with
  | none =>
    have hstop := h c hc
    simp only [continues, Bool.or_eq_false_iff, decide_eq_false_iff_not] at hstop
    exact ⟨hstop.1.1.1, hstop.1.1.2⟩
  | some x =>
    cases hc
    rcases x.isE with he | he <;> rw [he] <;> decide

theorem head_fractionText {f : Option Digits} {rest : List Char}
    (h : ∀ c ∈ rest.head?, c.isDigit = false ∧ c ≠ '.') :
    ∀ c ∈ (Numeral.fractionText f ++ rest).head?, c.isDigit = false := by
  intro c hc
  cases f with
  | none => exact (h c hc).1
  | some d =>
    cases hc
    decide

/-- The digits of a complete numeral begin with a digit or a point. -/
theorem Numeral.head_digits {n : Numeral} (hn : n.complete = true) (rest : List Char) :
    ∀ c ∈ (n.whole.chars ++ (fractionText n.fraction ++ rest)).head?,
      c.isDigit = true ∨ c = '.' := by
  intro c hc
  rw [complete, Bool.and_eq_true, Bool.not_eq_true', List.isEmpty_eq_false_iff] at hn
  by_cases hwhole : n.whole.chars = []
  · rw [hwhole, List.nil_append] at hc
    cases hf : n.fraction with
    | none =>
      rw [mantissa, hwhole, hf] at hn
      exact absurd rfl hn.1
    | some d =>
      rw [hf] at hc
      cases hc
      exact .inr rfl
  · exact .inl (n.whole.head hwhole _ c hc)

theorem Numeral.head_text {n : Numeral} (hn : n.complete = true) (rest : List Char) :
    ∀ c ∈ (n.text ++ rest).head?,
      (∃ s, n.sign = some s ∧ c = s.char) ∨ c.isDigit = true ∨ c = '.' := by
  intro c hc
  have hdigits := n.head_digits hn (exponentText n.exponent ++ rest) c
  rw [text, List.append_assoc, List.append_assoc, List.append_assoc] at hc
  cases hs : n.sign with
  | none =>
    rw [hs] at hc
    exact .inr (hdigits hc)
  | some s =>
    rw [hs] at hc
    cases hc
    exact .inl ⟨s, rfl, rfl⟩

theorem scan_text {format : Format} {n : Numeral} {rest : List Char} (hformat : n.HasFormat format)
    (hn : n.complete = true) (h : Stops rest) : scan format (n.text ++ rest) = (n, rest) := by
  have hdigits := n.head_digits hn (Numeral.exponentText n.exponent ++ rest)
  have hexponent := head_exponentText (x := n.exponent) h
  have hfraction := head_fractionText (f := n.fraction) hexponent
  obtain ⟨sign, whole, fraction, exponent⟩ := n
  have htext : (⟨sign, whole, fraction, exponent⟩ : Numeral).text ++ rest =
      Sign.text sign ++ (whole.chars ++ (Numeral.fractionText fraction ++
        (Numeral.exponentText exponent ++ rest))) := by
    simp only [Numeral.text, List.append_assoc]
  have hsign : scanSign (Sign.text sign ++ (whole.chars ++ (Numeral.fractionText fraction ++
      (Numeral.exponentText exponent ++ rest)))) = (sign, whole.chars ++
        (Numeral.fractionText fraction ++ (Numeral.exponentText exponent ++ rest))) := by
    refine scanSign_text fun _ c hc => ?_
    rcases hdigits c hc with hc | rfl
    · exact isSign_of_isDigit hc
    · decide
  rw [htext]
  simp only [scan, hsign, scanDigits_append hfraction]
  cases format with
  | integer =>
    obtain ⟨rfl, rfl⟩ := hformat
    rfl
  | rational =>
    rw [Numeral.complete, Bool.and_eq_true, Bool.not_eq_true'] at hn
    have hmantissa : (⟨sign, whole, fraction, none⟩ : Numeral).mantissa.isEmpty = false := hn.1
    simp only [scanFraction_text hexponent, hmantissa, scanExponent_text h hn.2]
    rfl

/-! ## Characters of a numeral -/

theorem countP_eq_zero_of {p : Char → Bool} {cs : List Char} {q : Char → Bool}
    (hcs : ∀ c ∈ cs, q c = true) (h : ∀ c, q c = true → p c = false) : cs.countP p = 0 :=
  List.countP_eq_zero.2 fun c hc => by simp [h c (hcs c hc)]

theorem countP_sign (p : Char → Bool) (sign : Option Sign) :
    (Sign.text sign).countP p = sign.elim 0 (fun s => (p s.char).toNat) := by
  cases sign with
  | none => rfl
  | some s => cases hs : p s.char <;> simp [Sign.text, hs]

section
variable {p : Char → Bool} (hdigit : ∀ c : Char, c.isDigit = true → p c = false)
include hdigit

theorem Exponent.countP_text (x : Exponent) :
    x.text.countP p = (p x.e).toNat + x.sign.elim 0 (fun s => (p s.char).toNat) := by
  rw [Exponent.text, List.countP_cons, List.countP_append, countP_sign,
    countP_eq_zero_of x.digits.isDigit hdigit, Nat.add_zero, Nat.add_comm]
  cases p x.e <;> rfl

theorem Numeral.countP_text (n : Numeral) :
    n.text.countP p = n.sign.elim 0 (fun s => (p s.char).toNat) +
      n.fraction.elim 0 (fun _ => (p '.').toNat) + n.exponent.elim 0 (·.text.countP p) := by
  obtain ⟨sign, whole, fraction, exponent⟩ := n
  simp only [Numeral.text, List.countP_append, countP_sign, Nat.zero_add, Nat.add_assoc,
    countP_eq_zero_of whole.isDigit hdigit]
  congr 2
  · cases fraction with
    | none => rfl
    | some d =>
      cases hs : p '.' <;>
        simp [Numeral.fractionText, countP_eq_zero_of d.isDigit hdigit, hs]
  · cases exponent <;> rfl

end

end Lib
