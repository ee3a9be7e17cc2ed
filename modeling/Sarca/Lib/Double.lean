import Mathlib.Algebra.Order.Floor.Ring
import Mathlib.Data.Rat.Floor

/-!
# Doubles by their values

A double is not a number, an infinity or a rational; the two zeros are one value. `roundDouble` is the
double nearest to a rational, ties to even, and `parseF64` reads a decimal text as Rust does.
-/

namespace Sarca.Lib

/-- The value of an `f64`. -/
inductive Double where
  | nan
  | infinite (negative : Bool)
  | finite (value : ℚ)
  deriving DecidableEq

/-- The integer nearest to a rational, the even one of two. -/
def roundHalfEven (x : ℚ) : ℤ :=
  let low := ⌊x⌋
  let rest := x - low
  if rest < 1 / 2 then low
  else if 1 / 2 < rest then low + 1
  else if low % 2 = 0 then low
  else low + 1

/-- The exponent of the last place of the double nearest to a positive rational. -/
def lastPlace (x : ℚ) : ℤ :=
  let guess := (x.num.natAbs.log2 : ℤ) - x.den.log2
  -- the logarithms of the two parts leave the exponent of the quotient open by one
  let exponent := if (2 : ℚ) ^ guess ≤ x then guess else guess - 1
  max (exponent - 52) (-1074)

/-- The double nearest to a rational. -/
def roundDouble (x : ℚ) : Double :=
  if x = 0 then .finite 0
  else
    let place := lastPlace |x|
    let rounded := (roundHalfEven (|x| / (2 : ℚ) ^ place) : ℚ) * (2 : ℚ) ^ place
    if (2 : ℚ) ^ (1024 : ℤ) ≤ rounded then .infinite (x < 0)
    else .finite (if x < 0 then -rounded else rounded)

/-- The number a text of digits names. -/
def digitsValue (digits : List Char) : Nat :=
  digits.foldl (fun n c => 10 * n + (c.toNat - '0'.toNat)) 0

/-- A text without its sign, and whether that was a minus. -/
def dropSign : List Char → Bool × List Char
  | '-' :: rest => (true, rest)
  | '+' :: rest => (false, rest)
  | text => (false, text)

/-- The power of ten at the end of a decimal, with its letter; none is the power 0. -/
def parseExponent : List Char → Option ℤ
  | [] => some 0
  | _ :: rest =>
    let (negative, digits) := dropSign rest
    if digits ≠ [] ∧ digits.all Char.isDigit then
      some (if negative then -(digitsValue digits : ℤ) else digitsValue digits)
    else none

/-- A decimal without a sign: digits, at most one point, a power of ten. -/
def parseDecimal (text : List Char) : Option ℚ :=
  let mantissa := text.takeWhile fun c => c.toLower ≠ 'e'
  let whole := mantissa.takeWhile (· ≠ '.')
  let fraction := (mantissa.dropWhile (· ≠ '.')).drop 1
  if whole ++ fraction ≠ [] ∧ (whole ++ fraction).all Char.isDigit then
    (parseExponent (text.dropWhile fun c => c.toLower ≠ 'e')).map fun exponent : ℤ =>
      (digitsValue (whole ++ fraction) : ℚ) * (10 : ℚ) ^ (exponent - (fraction.length : ℤ))
  else none

/-- Rust `str::parse::<f64>`. -/
def parseF64 (text : List Char) : Option Double :=
  let (negative, number) := dropSign text
  let word := number.map Char.toLower
  if word = "nan".toList then some .nan
  else if word = "inf".toList ∨ word = "infinity".toList then some (.infinite negative)
  else (parseDecimal number).map fun value => roundDouble (if negative then -value else value)

example : parseF64 "12.5".toList = some (.finite (25 / 2)) := by decide +kernel

example : parseF64 "-.25e1".toList = some (.finite (-5 / 2)) := by decide +kernel

example : parseF64 "1e309".toList = some (.infinite false) := by decide +kernel

end Sarca.Lib
