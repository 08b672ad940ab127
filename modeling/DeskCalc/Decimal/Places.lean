import DeskCalc.Binary64.Arithmetic
import DeskCalc.Decimal.Digits

/-!
# Decimal places

Rounding and writing a double with a given number of decimal places.  Both start from the same whole number,
`Magnitude.atPlaces`: the exact binary value in units of the last place, rounded to nearest with ties to even.

No double has a nonzero digit beyond the 1074th decimal place, so `Magnitude.trimmed`, which drops trailing zeros
anyway, never looks further.  Beyond 323 places rounding to a double changes nothing.
-/

namespace DeskCalc

namespace Magnitude

/-- The magnitude in units of `10 ^ (-places)`, rounded to nearest, ties to even. -/
def atPlaces (places : Nat) (a : Magnitude) : Nat :=
  roundDiv (a.units * 10 ^ places) unitsPerOne

/-- The digits after the decimal point, exactly `places` of them. -/
def fraction (places : Nat) (a : Magnitude) : List Char :=
  if places = 0 then [] else (numeral 10 (a.atPlaces places % 10 ^ places)).leftpad places '0'

/-- The digits before the decimal point when the magnitude is written with `places` decimal places. -/
def integral (places : Nat) (a : Magnitude) : List Char :=
  numeral 10 (a.atPlaces places / 10 ^ places)

/-- The magnitude with at most `places` decimal places: trailing zeros, and then a trailing point, are left out. -/
def trimmed (places : Nat) (a : Magnitude) : List Char :=
  let places := Nat.min places 1074
  let fraction := ((a.fraction places).reverse.dropWhile (· == '0')).reverse
  if fraction.isEmpty then a.integral places else a.integral places ++ '.' :: fraction

end Magnitude

namespace Double

/-- The nearest double to the number rounded to `places` decimal places. -/
def roundTo (places : Nat) : Double → Double
  | finite s a => if 323 < places then finite s a else ofRatio s (a.atPlaces places) (10 ^ places)
  | x => x

end Double

end DeskCalc
