import DeskCalc.Binary64.Nearest
import DeskCalc.Decimal.Digits

/-!
# The shortest decimal that reads back

`Magnitude.shortest` finds the fewest decimal digits that denote a number inside the rounding interval of a
magnitude, and among those the nearest one.  It goes through the decimal grids of 1, 2, …, 17 digits: only the two
neighbours of the magnitude on a grid can be nearest, and 17 digits always suffice.  The interval includes its ends
exactly if the mantissa is even, because ties round to even.

`FloatLayout` holds the choices of the written form.
-/

namespace DeskCalc

namespace Magnitude

/-- The position `k` of the decimal point: `10 ^ (k - 1) ≤ a < 10 ^ k` for a positive magnitude `a`. -/
def pointPosition (a : Magnitude) : Int :=
  ((digits 10 (a.units * 10 ^ 330 / unitsPerOne)).length : Int) - 330

/-- Whether `c * den / (4 * f)` units lie in the rounding interval, for a grid with the scaling `f` and step
`den / f` units. -/
def roundsFrom (a : Magnitude) (c den f : Nat) : Bool :=
  let above := 2 * 2 ^ a.shift
  let below := if a.mantissa = 2 ^ 52 ∧ 0 < a.shift then 2 ^ a.shift else above
  let low := (4 * a.units - below) * f
  let high := (4 * a.units + above) * f
  if a.mantissa % 2 = 0 then low ≤ 4 * c * den && 4 * c * den ≤ high
  else low < 4 * c * den && 4 * c * den < high

/-- The nearer neighbour of the magnitude on the grid of the multiples of `10 ^ e`, if one rounds to it. -/
def onGrid? (a : Magnitude) (e : Int) : Option Nat :=
  let f := 10 ^ (-e).toNat
  let den := unitsPerOne * 10 ^ e.toNat
  let low := a.units * f / den
  let r := a.units * f % den
  match a.roundsFrom low den f, a.roundsFrom (low + 1) den f with
  | true, true =>
    if 2 * r < den then some low
    else if den < 2 * r then some (low + 1)
    else some (low + low % 2)
  | true, false => some low
  | false, true => some (low + 1)
  | false, false => none

/-- The shortest digits `c` and the exponent `e` of a decimal `c * 10 ^ e` that reads back as the magnitude. -/
def shortest (a : Magnitude) : Nat × Int :=
  let k := a.pointPosition
  let hit := (List.range 17).findSome? fun (n : Nat) =>
    let e := k - (n + 1)
    (a.onGrid? e).map fun c => (c, e)
  hit.getD (0, 0)

end Magnitude

/-- How a double is written: which exponents of the first digit are written positionally, and the least width of a
written exponent. -/
structure FloatLayout where
  leastPositional : Int
  beyondPositional : Int
  exponentWidth : Nat

/-- From `0.0001` up to below `10 ^ 16` a number is written with a decimal point; else with an exponent of at least
two digits. -/
def floatLayout : FloatLayout :=
  ⟨-4, 16, 2⟩

namespace FloatLayout

/-- The digits `ds` with the decimal point at position `k`. -/
def positional (ds : List Char) (k : Int) : List Char :=
  if k ≤ 0 then '0' :: '.' :: List.replicate (-k).toNat '0' ++ ds
  else if ds.length ≤ k.toNat then ds ++ List.replicate (k.toNat - ds.length) '0' ++ ['.', '0']
  else ds.take k.toNat ++ '.' :: ds.drop k.toNat

/-- The digits `ds` with one digit before the point, times ten to the power `e`. -/
def scientific (layout : FloatLayout) (ds : List Char) (e : Int) : List Char :=
  let mantissa := match ds with
    | d :: rest => if rest.isEmpty then [d] else d :: '.' :: rest
    | [] => []
  mantissa ++ ['e', if e < 0 then '-' else '+'] ++ (numeral 10 e.natAbs).leftpad layout.exponentWidth '0'

/-- The written form of a positive magnitude. -/
def write (layout : FloatLayout) (a : Magnitude) : List Char :=
  let (c, e) := a.shortest
  let all := numeral 10 c
  let ds := (all.reverse.dropWhile (· == '0')).reverse
  let k := (all.length : Int) + e
  let e := k - 1
  if layout.leastPositional ≤ e ∧ e < layout.beyondPositional then positional ds k
  else layout.scientific ds e

end FloatLayout

namespace Double

/-- The shortest text that reads back as the number. -/
def text : Double → List Char
  | nan => ['n', 'a', 'n']
  | infinite s => if s then ['-', 'i', 'n', 'f'] else ['i', 'n', 'f']
  | finite s a =>
    let sign := if s then ['-'] else []
    if a.mantissa = 0 then sign ++ ['0', '.', '0'] else sign ++ floatLayout.write a

def toText (x : Double) : String :=
  String.ofList x.text

end Double

end DeskCalc
