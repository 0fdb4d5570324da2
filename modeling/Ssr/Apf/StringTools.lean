import Mathlib.Data.Nat.Notation
import Mathlib.Data.Int.Notation

/-!
# String conversions (`apf/stringtools.h`)

`A2S` and `S2A` for the types that scene files contain, apart from numbers with a fraction.
`S2A` skips white space on both sides and fails if anything else is left. Its `std::ws` is taken not
to fail at the end of the text, as the tests of `S2A` need it; `string2time` is modelled for both
kinds of `std::ws` (`Platform.wsSentry`).
-/

set_option autoImplicit false

namespace Apf

def isspace (c : Char) : Bool := c = ' ' || (9 ≤ c.toNat && c.toNat ≤ 13)

/-- What `S2A` converts. -/
def trim (s : List Char) : List Char :=
  ((s.dropWhile isspace).reverse.dropWhile isspace).reverse

/-- The number that the digits stand for, after the digits read so far. -/
def readDigits : List Char → ℕ → Option ℕ
  | [], n => some n
  | c :: cs, n => if c.isDigit then readDigits cs (10 * n + (c.toNat - '0'.toNat)) else none

/-- At least one digit. -/
def readNat : List Char → Option ℕ
  | [] => none
  | c :: cs => readDigits (c :: cs) 0

/-- A whole number with an optional sign. -/
def readInt : List Char → Option ℤ
  | '-' :: cs => (readNat cs).map fun n => -(n : ℤ)
  | '+' :: cs => (readNat cs).map fun n => (n : ℤ)
  | cs => (readNat cs).map fun n => (n : ℤ)

/-- `S2A` for an `int`, which has to be in range. -/
def S2AInt (s : String) : Option Int32 :=
  (readInt (trim s.toList)).bind fun n =>
    if -2147483648 ≤ n ∧ n ≤ 2147483647 then some (Int32.ofInt n) else none

/-- `S2A` for a `bool`: first a number, then a word. -/
def S2ABool (s : String) : Option Bool :=
  let input := trim s.toList
  if readInt input = some 0 then some false
  else if readInt input = some 1 then some true
  else if input = "true".toList then some true
  else if input = "false".toList then some false
  else none

/-- `A2S` for an `int`. -/
def A2SInt (n : Int32) : String := toString n.toInt

/-- `A2S` for a `bool`. -/
def A2SBool : Bool → String
  | true => "true"
  | false => "false"

end Apf
