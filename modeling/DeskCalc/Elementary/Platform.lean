import DeskCalc.Elementary

/-!
# The platform's elementary functions

`Elementary.platform` evaluates the elementary functions with the floating-point library of the machine, through
the bit patterns of the doubles.
-/

namespace DeskCalc

namespace Double

def toFloat (x : Double) : Float :=
  Float.ofBits (UInt64.ofNat x.toBits)

def ofFloat (x : Float) : Double :=
  ofBits x.toBits.toNat

/-- A function on machine numbers as a function on doubles. -/
def viaFloat (f : Float → Float) (x : Double) : Double :=
  ofFloat (f x.toFloat)

end Double

namespace Elementary

def platform : Elementary where
  sin := Double.viaFloat Float.sin
  cos := Double.viaFloat Float.cos
  tan := Double.viaFloat Float.tan
  asin := Double.viaFloat Float.asin
  acos := Double.viaFloat Float.acos
  atan := Double.viaFloat Float.atan
  sinh := Double.viaFloat Float.sinh
  cosh := Double.viaFloat Float.cosh
  tanh := Double.viaFloat Float.tanh
  exp := Double.viaFloat Float.exp
  ln := Double.viaFloat Float.log
  log10 := Double.viaFloat Float.log10
  pow := fun x y => Double.ofFloat (Float.pow x.toFloat y.toFloat)

end Elementary

end DeskCalc
