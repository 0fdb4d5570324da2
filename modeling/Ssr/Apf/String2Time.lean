import Ssr.Apf.StringTools
import Ssr.Lib.Istream

/-!
# Time strings (`apf/stringtools.h`, `string2time`)

The output type is an integer or a rational type without bounds; its values are rational numbers
here, and `/` truncates if it is an integer type. The intermediate results `minutes` and `hours` have
the types `int` and `long int`.
-/

set_option autoImplicit false

namespace Apf

open Lib

/-- What `string2time` takes from the platform. -/
structure Platform where
  /-- `std::ws` constructs a sentry -/
  wsSentry : Bool
  intMax : ℕ
  longMax : ℕ
  intMax_ge : 32767 ≤ intMax
  longMax_ge : 2147483647 ≤ longMax

namespace Platform

def isInt (platform : Platform) (v : ℤ) : Bool := -platform.intMax - 1 ≤ v && v ≤ platform.intMax

def isLong (platform : Platform) (v : ℤ) : Bool := -platform.longMax - 1 ≤ v && v ≤ platform.longMax

end Platform

variable (platform : Platform) (format : Format)

/-! ## Stream helpers -/

/-- `a / b` in the output type. -/
def divide (a b : ℚ) : ℚ :=
  match format with
  | .integer => a.num.tdiv b.num
  | .rational => a / b

/-- The loop of `convert_chars`, which starts at the last character. -/
def convertLoop : List Char → ℕ → ℕ → Option ℕ
  | [], _, result => some result
  | c :: cs, factor, result =>
    if c.isDigit then convertLoop cs (factor * 10) (result + (c.toNat - '0'.toNat) * factor)
    else none

/-- `convert_chars<digits>`: no result if `failbit` is set. -/
def convertChars (digits : ℕ) (input : Istream) : Istream × Option ℕ :=
  if input.failbit then (input, none)
  else
    let input := if input.skipws then input.ws isspace platform.wsSentry else input
    let ch := input.read digits
    if ch.1.failbit then (ch.1, none)
    else
      match convertLoop ch.2.reverse 1 0 with
      | none => ({ ch.1 with failbit := true }, none)
      | some result => (ch.1, some result)

def removeChar (input : Istream) (character : Char) : Istream :=
  if input.failbit then input
  else
    let input := if input.skipws then input.ws isspace platform.wsSentry else input
    match input.get with
    | (input, none) => input
    | (input, some ch) => if ch ≠ character then { input with failbit := true } else input

def removeColon (input : Istream) : Istream := removeChar platform input ':'

/-! ## `string2time` -/

/-- The loop that counts colons; the first character is not looked at, and the counter is a `char`.
-/
def colons (input : List Char) : ℕ := (input.drop 1).count ':' % 256

/-- The possible suffixes; milliseconds have to be representable. -/
def applySuffix (theRest : List Char) (number : ℚ) : Option ℚ :=
  if theRest = "h".toList then some (number * 60 * 60)
  else if theRest = "min".toList then some (number * 60)
  else if theRest = "s".toList then some number
  else if theRest = "ms".toList then
    if divide format number 1000 * 1000 ≠ number then none else some (divide format number 1000)
  else none

/-- No colons: a number, maybe with a suffix. -/
def stringToNumber (input : List Char) : Option ℚ :=
  match (Istream.new input).extract isspace format fun _ => true with
  | (_, none) => none
  | (iss, some number) =>
    let iss := iss.ws isspace platform.wsSentry
    if iss.failbit then none
    else if iss.eofbit then some number.value
    else
      match iss.extractWord isspace with
      | (_, none) => none
      | (iss, some theRest) =>
        let iss := iss.ws isspace platform.wsSentry
        if iss.failbit then none
        else if !iss.eofbit then none
        else applySuffix format theRest number.value

/-- `hours` and `minutes` if there is one colon. -/
def readMinutes (iss : Istream) : Istream × Option (ℤ × ℤ) :=
  match iss.extract isspace .integer fun n => platform.isInt n.intValue with
  | (iss, none) => (iss, none)
  | (iss, some minutes) =>
    if minutes.intValue < 0 ∨ minutes.intValue > 59 then (iss, none)
    else (iss, some (0, minutes.intValue))

/-- `hours` and `minutes` if there are two colons. -/
def readHours (iss : Istream) : Istream × Option (ℤ × ℤ) :=
  match iss.extract isspace .integer fun n => platform.isLong n.intValue with
  | (iss, none) => (iss, none)
  | (iss, some hours) =>
    match convertChars platform 2 (removeColon platform { iss with skipws := false }) with
    | (iss, none) => (iss, none)
    | (iss, some minutes) =>
      if hours.intValue < 0 then (iss, none)
      else if minutes > 59 then (iss, none)
      else (iss, some (hours.intValue, minutes))

/-- `fraction_of_second`, if there is a point. -/
def readFraction (iss : Istream) : Istream × Option ℚ :=
  match iss.peek with
  | (iss, some c) =>
    if c = '.' then
      let fraction := iss.extract isspace format fun _ => true
      (fraction.1, fraction.2.map (·.value))
    else (iss, some 0)
  | (iss, none) => (iss, some 0)

/-- `the_rest`: the seconds with their fraction, up to the end. -/
def readSeconds (iss : Istream) : Option ℚ :=
  match convertChars platform 2 (removeColon platform { iss with skipws := false }) with
  | (_, none) => none
  | (iss, some wholeSeconds) =>
    if wholeSeconds > 59 then none
    else
      match readFraction format iss with
      | (_, none) => none
      | (iss, some fractionOfSecond) =>
        if !(iss.ws isspace platform.wsSentry).eofbit then none
        else
          let theRest := wholeSeconds + fractionOfSecond
          if theRest ≥ 60 then none else some theRest

/-- `negative`; the '-' is removed. -/
def readSign (iss : Istream) : Istream × Bool :=
  match iss.peek with
  | (iss, some '-') => (iss.ignore, true)
  | (iss, _) => (iss, false)

/-- One colon or two: `negative`, `hours`, `minutes` and `the_rest`. -/
def stringToClock (colons : ℕ) (input : List Char) : Option (Bool × ℤ × ℤ × ℚ) :=
  let sign := readSign ((Istream.new input).ws isspace platform.wsSentry)
  match if colons = 1 then readMinutes platform sign.1 else readHours platform sign.1 with
  | (_, none) => none
  | (iss, some (hours, minutes)) =>
    (readSeconds platform format iss).map fun theRest => (sign.2, hours, minutes, theRest)

/-- `string2time` with its return value and the new output; `none` is the overflow of a `long int`,
which is undefined. -/
def string2time (input : List Char) (output : ℚ) : Option (Bool × ℚ) :=
  if colons input = 0 then
    match stringToNumber platform format input with
    | none => some (false, output)
    | some seconds => some (true, seconds)
  else if colons input = 1 ∨ colons input = 2 then
    match stringToClock platform format (colons input) input with
    | none => some (false, output)
    | some (negative, hours, minutes, theRest) =>
      let hours := if negative then -hours else hours
      let minutes := if negative then -minutes else minutes
      let theRest := if negative then -theRest else theRest
      if platform.isLong (hours * 60 * 60) then
        some (true, ((hours * 60 * 60 : ℤ) : ℚ) + ((minutes * 60 : ℤ) : ℚ) + theRest)
      else none
  else some (false, output)

end Apf
