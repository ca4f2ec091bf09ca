/-
# Decimals

A decimal is a whole number of powers of ten, and a decimal text is how it is written.

* **Writing** is always in full: the digits of the whole part, then a point and the digits behind
  it if there are any.  There is no exponent, however large or small the decimal is.
* **Reading** takes more: digits with at most one point, at least one digit in all, and an
  optional exponent, which is `e` or `E`, an optional sign and at least one digit.  `5.`, `.5` and
  `1.e5` are decimals; a point alone is none.  Nothing may be left over, and no sign stands in
  front.
-/

namespace Reckoner

/-- A whole number, `digits`, shifted by `exponent` decimal places. -/
structure Decimal where
  digits : Nat
  exponent : Int
  deriving DecidableEq

namespace Decimal

/-! ## 1. Value -/

/-- The digits with the zeros that a positive exponent puts behind them. -/
def numerator (decimal : Decimal) : Nat := decimal.digits * Nat.pow 10 decimal.exponent.toNat

/-- The power of ten that divides them when the exponent is negative.  A decimal is the ratio of
`numerator` and `denominator`. -/
def denominator (decimal : Decimal) : Nat := Nat.pow 10 (-decimal.exponent).toNat

theorem denominator_pos (decimal : Decimal) : 0 < decimal.denominator :=
  Nat.pow_pos (by decide)

/-! ## 2. Writing -/

/-- The digits in front of the point. -/
def wholeText (decimal : Decimal) : List Char :=
  Nat.toDigits 10 (decimal.numerator / decimal.denominator)

/-- The digits behind the point, without zeros at the end. -/
def fractionText (decimal : Decimal) : List Char :=
  let digits := Nat.toDigits 10 (decimal.numerator % decimal.denominator)
  ((digits.leftpad (-decimal.exponent).toNat '0').reverse.dropWhile (· == '0')).reverse

/-- The decimal in full. -/
def text (decimal : Decimal) : List Char :=
  match decimal.fractionText with
  | [] => decimal.wholeText
  | fraction => decimal.wholeText ++ '.' :: fraction

/-! ## 3. Reading -/

/-- A sign, if the text begins with one, and the rest. -/
def takeSign : List Char → Bool × List Char
  | '-' :: rest => (true, rest)
  | '+' :: rest => (false, rest)
  | text => (false, text)

/-- The next exponent once a digit is read.  From 65536 on it no longer grows: a text would need
tens of thousands of digits for that to matter. -/
def growExponent (exponent : Nat) (digit : Char) : Nat :=
  if exponent < 65536 then 10 * exponent + (digit.toNat - '0'.toNat) else exponent

/-- What follows the letter of an exponent: an optional sign and one digit or more. -/
def readExponent? (text : List Char) : Option Int :=
  let (negative, digits) := takeSign text
  if digits ≠ [] ∧ digits.all Char.isDigit then
    let magnitude := digits.foldl growExponent 0
    some (if negative then -magnitude else magnitude)
  else none

/-- What follows the digits: an exponent, or nothing, which counts as zero. -/
def readSuffix? : List Char → Option Int
  | [] => some 0
  | letter :: rest => if letter = 'e' ∨ letter = 'E' then readExponent? rest else none

/-- A point with the digits behind it, if the text begins with one, and the rest. -/
def takeFraction : List Char → List Char × List Char
  | '.' :: rest => (rest.takeWhile Char.isDigit, rest.dropWhile Char.isDigit)
  | text => ([], text)

/-- The decimal that a text denotes, if it is a decimal text. -/
def ofText? (text : List Char) : Option Decimal :=
  let whole := text.takeWhile Char.isDigit
  let (fraction, suffix) := takeFraction (text.dropWhile Char.isDigit)
  if whole = [] ∧ fraction = [] then none
  else (readSuffix? suffix).map fun exponent =>
    ⟨Nat.ofDigitChars 10 (whole ++ fraction) 0, exponent - fraction.length⟩

end Decimal

end Reckoner
