import DeskCalc.Binary64.Nearest

/-!
# Arithmetic on doubles

Each operation computes its exact result on whole units and rounds once (`Double.ofUnits`), as IEEE 754 asks.
Sums that vanish are positive zeros unless both terms are negative zeros; products and quotients take the sign
that the signs of their operands give.

The square root is rounded through an integer root with at least 537 bits: one more bit that says whether the
root is exact (`2 * r + 1` halves) decides every rounding as the real root would.
-/

namespace DeskCalc

namespace Double

open Magnitude (unitsPerOne)

def add : Double → Double → Double
  | nan, _ => nan
  | _, nan => nan
  | infinite s, infinite t => if s = t then infinite s else nan
  | infinite s, finite _ _ => infinite s
  | finite _ _, infinite t => infinite t
  | finite s a, finite t b =>
    let sum := signedUnits s a + signedUnits t b
    if sum = 0 then zero (s && t) else ofUnits (decide (sum < 0)) sum.natAbs 1

def sub (x y : Double) : Double :=
  add x (neg y)

def mul : Double → Double → Double
  | nan, _ => nan
  | _, nan => nan
  | infinite s, infinite t => infinite (s ^^ t)
  | infinite s, finite t b => if b.mantissa = 0 then nan else infinite (s ^^ t)
  | finite s a, infinite t => if a.mantissa = 0 then nan else infinite (s ^^ t)
  | finite s a, finite t b => ofUnits (s ^^ t) (a.units * b.units) unitsPerOne

/-- The quotient; a zero divisor gives an infinity, or NaN under a zero. -/
def div : Double → Double → Double
  | nan, _ => nan
  | _, nan => nan
  | infinite _, infinite _ => nan
  | infinite s, finite t _ => infinite (s ^^ t)
  | finite s _, infinite t => zero (s ^^ t)
  | finite s a, finite t b =>
    if b.mantissa = 0 then
      if a.mantissa = 0 then nan else infinite (s ^^ t)
    else ofRatio (s ^^ t) a.units b.units

/-- The square root; of a negative number other than zero it is NaN. -/
def sqrt : Double → Double
  | nan => nan
  | infinite s => if s then nan else infinite false
  | finite s a =>
    if a.mantissa = 0 then finite s a
    else if s then nan
    else
      let square := a.units * unitsPerOne
      let root := square.sqrt
      if root * root = square then ofUnits false root 1 else ofUnits false (2 * root + 1) 2

/-! ### Whole numbers near a double -/

/-- The largest integer that is not above the number, as a double.  An integer has no negative zero. -/
def floor : Double → Double
  | finite s a => ofInt ((signedUnits s a).fdiv unitsPerOne)
  | x => x

/-- The least integer that is not below the number, as a double.  An integer has no negative zero. -/
def ceil : Double → Double
  | finite s a => ofInt (-((-signedUnits s a).fdiv unitsPerOne))
  | x => x

/-- The nearest whole number, a half going away from zero; a zero keeps the sign of the number. -/
def roundHalfAway : Double → Double
  | finite s a =>
    if 2 ^ 52 ≤ a.whole then finite s a
    else ofRatio s ((2 * a.units + unitsPerOne) / (2 * unitsPerOne)) 1
  | x => x

/-! ### Selection -/

/-- The smaller number; the first one unless the second is properly smaller. -/
def min (x y : Double) : Double :=
  if lt y x then y else x

/-- The larger number; the first one unless the second is properly larger. -/
def max (x y : Double) : Double :=
  if lt x y then y else x

end Double

end DeskCalc
