import Ssr.Apf.StringTools
import Ssr.Lib.Numeral

/-!
# The grammar of time strings

What a time string is and which time it stands for: a number with an optional unit (`NumberTime`) or
a clock value with minutes and seconds, maybe hours and a fraction (`ClockTime`), with white space
around it. The parts of a `ClockTime` also cover texts that are not in the grammar: a sign of the
first field behind the '-' and an exponent of the fraction.
-/

set_option autoImplicit false

namespace Apf

open Lib

structure Spaces where
  chars : List Char
  isspace : ∀ c ∈ chars, isspace c = true

/-! ## Numbers with units -/

inductive TimeUnit
  | h
  | min
  | s
  | ms
  deriving DecidableEq, Repr

namespace TimeUnit

def text : TimeUnit → List Char
  | h => "h".toList
  | min => "min".toList
  | s => "s".toList
  | ms => "ms".toList

def seconds : TimeUnit → ℚ → ℚ
  | h, v => v * 3600
  | min, v => v * 60
  | s, v => v
  | ms, v => v / 1000

end TimeUnit

structure NumberTime where
  lead : Spaces
  number : Numeral
  gap : Spaces
  unit : Option TimeUnit
  trail : Spaces

namespace NumberTime

def text (x : NumberTime) : List Char :=
  x.lead.chars ++ (x.number.text ++ (x.gap.chars ++ (x.unit.elim [] TimeUnit.text ++ x.trail.chars)))

structure Grammar (format : Format) (x : NumberTime) : Prop where
  hasFormat : x.number.HasFormat format
  complete : x.number.complete = true
  ms : x.unit = some .ms → format = .integer → (1000 : ℤ) ∣ x.number.intValue

def value (x : NumberTime) : ℚ := x.unit.elim x.number.value (·.seconds x.number.value)

end NumberTime

/-! ## Clock values -/

structure Fraction where
  digits : Digits
  exponent : Option Exponent

/-- The fraction as a number between 0 and 1, if it has no exponent. -/
def Fraction.numeral (f : Fraction) : Numeral :=
  { sign := none
    whole := { chars := [], isDigit := fun _ h => by cases h }
    fraction := some f.digits
    exponent := f.exponent }

structure ClockTime where
  lead : Spaces
  /-- a '-', with the white space behind it -/
  minus : Option Spaces
  /-- a sign before the first digit (if it is a '-', it is not the first one) -/
  sign : Option Sign
  hours : Option Digits
  minutes : Digits
  seconds : Digits
  fraction : Option Fraction
  trail : Spaces

namespace ClockTime

/-- The first field with its sign. -/
def first (x : ClockTime) : Numeral := .integer x.sign (x.hours.getD x.minutes)

/-- The text from the colon before the seconds on. -/
def secondsText (x : ClockTime) : List Char :=
  ':' :: (x.seconds.chars ++ (x.fraction.elim [] (·.numeral.text) ++ x.trail.chars))

def text (x : ClockTime) : List Char :=
  x.lead.chars ++ (x.minus.elim [] ('-' :: ·.chars) ++ (x.first.text ++
    (x.hours.elim [] (fun _ => ':' :: x.minutes.chars) ++ x.secondsText)))

structure Fields (format : Format) (x : ClockTime) : Prop where
  first : (x.hours.getD x.minutes).chars ≠ []
  minutes : x.hours.isSome → x.minutes.chars.length = 2
  minutes_le : x.minutes.value ≤ 59
  seconds : x.seconds.chars.length = 2
  seconds_le : x.seconds.value ≤ 59
  fraction : ∀ f, x.fraction = some f → format = .rational ∧ f.digits.chars ≠ []

/-- At most one sign character, and digits behind the point. -/
structure Grammar (format : Format) (x : ClockTime) : Prop where
  fields : x.Fields format
  sign : x.sign = none ∨ x.minus = none ∧ x.sign = some .plus
  exponent : ∀ f, x.fraction = some f → f.exponent = none

def hoursValue (x : ClockTime) : ℕ := x.hours.elim 0 (·.value)

/-- The seconds with their fraction. -/
def theRest (x : ClockTime) : ℚ := x.seconds.value + x.fraction.elim 0 (·.numeral.value)

def value (x : ClockTime) : ℚ :=
  let v := 3600 * (x.hoursValue : ℚ) + 60 * (x.minutes.value : ℚ) + x.theRest
  if x.minus.isSome then -v else v

end ClockTime

/-- `t` is the time in seconds that `s` stands for. -/
def Meaning (format : Format) (s : List Char) (t : ℚ) : Prop :=
  (∃ x : NumberTime, x.Grammar format ∧ x.text = s ∧ x.value = t) ∨
    ∃ x : ClockTime, x.Grammar format ∧ x.text = s ∧ x.value = t

end Apf
