import DeskCalc.Binary64.Arithmetic

/-!
# Elementary functions

The last bit of a sine or a power is the platform's business, so the elementary functions are a parameter of the
calculator: a record of functions on doubles (`Elementary`).

A mathematical library signals a fault where it has no finite answer to a finite question: a domain fault where
the function has a pole or is not defined, a range fault where the answer is too large.  The calculator never
stops at a fault.  `quiet` answers a domain fault by NaN and a range fault by an infinity; `power` gives every
fault of the power function the value that IEEE 754 recommends.
-/

namespace DeskCalc

/-- The functions that the platform provides. -/
structure Elementary where
  sin : Double → Double
  cos : Double → Double
  tan : Double → Double
  asin : Double → Double
  acos : Double → Double
  atan : Double → Double
  sinh : Double → Double
  cosh : Double → Double
  tanh : Double → Double
  exp : Double → Double
  ln : Double → Double
  log10 : Double → Double
  pow : Double → Double → Double

inductive MathFault where
  | domain
  | range
  deriving DecidableEq, Repr

/-- The answer of a function of one argument, or the fault it signals.  An infinite answer at a finite argument is taken
for a range fault, whatever the function is: those that are checked have no poles, or are not asked there. -/
def checked (f : Double → Double) (x : Double) : Except MathFault Double :=
  match f x with
  | .nan => if x.isNaN then .ok .nan else .error .domain
  | .infinite s => if x.isFinite then .error .range else .ok (.infinite s)
  | y => .ok y

/-- The function with faults answered by values: NaN outside the domain, infinity out of range. -/
def quiet (f : Double → Double) (x : Double) : Double :=
  match checked f x with
  | .ok y => y
  | .error .domain => .nan
  | .error .range => .infinite false

/-- As `quiet`, for an odd function: out of range the answer has the sign of the argument. -/
def quietOdd (f : Double → Double) (x : Double) : Double :=
  match checked f x with
  | .ok y => y
  | .error .domain => .nan
  | .error .range => .infinite x.isNegative

namespace Elementary

/-- The answer of the power function, or the fault it signals: a domain fault at a pole and for a negative base
with a fractional exponent, a range fault if the power of a number other than zero is too large. -/
def checkedPow (fn : Elementary) (x y : Double) : Except MathFault Double :=
  match fn.pow x y with
  | .nan => if x.isFinite && y.isFinite then .error .domain else .ok .nan
  | .infinite s =>
    if x.isFinite && y.isFinite then
      if x.isZero then .error .domain else .error .range
    else .ok (.infinite s)
  | z => .ok z

end Elementary

end DeskCalc
