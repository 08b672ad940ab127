import DeskCalc.Elementary

/-!
# Numeric kernels

What the operators and functions compute.  No kernel fails: a quotient by zero, a logarithm of zero and a power
that is too large are infinite, an undefined result is NaN (`divide`, `power`, `ln`).
-/

namespace DeskCalc

/-- What an operator or a function does to its arguments. -/
inductive Kernel where
  | unary (f : Double → Double)
  | binary (f : Double → Double → Double)

namespace Kernel

def arity : Kernel → Nat
  | unary _ => 1
  | binary _ => 2

/-- Replaces the arguments on top of a stack, the last one topmost, by the result. -/
def onStack : Kernel → List Double → Option (List Double)
  | unary f, x :: rest => some (f x :: rest)
  | binary f, y :: x :: rest => some (f x y :: rest)
  | _, _ => none

/-- The kernel after a conversion of its argument; a kernel of two arguments is left as it is. -/
def after (convert : Double → Double) : Kernel → Kernel
  | unary f => unary fun x => f (convert x)
  | binary f => binary f

theorem onStack_isSome_iff (k : Kernel) (stack : List Double) :
    (k.onStack stack).isSome ↔ k.arity ≤ stack.length := by
  cases k with
  | unary f => cases stack <;> simp [onStack, arity]
  | binary f =>
    match stack with
    | [] => simp [onStack, arity]
    | [_] => simp [onStack, arity]
    | _ :: _ :: _ => simp [onStack, arity]

/-! ### Constants -/

/-- The double nearest to Euler's number. -/
def e : Double :=
  Double.ofBits 0x4005BF0A8B145769

/-- The double nearest to `π`. -/
def pi : Double :=
  Double.ofBits 0x400921FB54442D18

def one : Double :=
  Double.ofNat 1

/-! ### Operators -/

/-- The quotient.  Division by zero is infinite with the sign of both operands, and NaN for zero or NaN by zero. -/
def divide (x y : Double) : Double :=
  if y.isZero then
    if x.isZero || x.isNaN then .nan else .infinite (x.isNegative ^^ y.isNegative)
  else x.div y

/-- The power.  A power that is too large is infinite, negative exactly for an odd power of a negative base; so is
a negative power of zero, and there an odd power takes the sign of the zero.  A fractional power of a negative base
is NaN. -/
def power (fn : Elementary) (x y : Double) : Double :=
  match fn.checkedPow x y with
  | .ok z => z
  | .error .range => .infinite (x.isNegative && y.isOddInteger)
  | .error .domain =>
    if x.isZero then .infinite (x.isNegative && y.isOddInteger)
    else .nan

/-! ### Roots, logarithms and exponentials -/

def ln (fn : Elementary) (x : Double) : Double :=
  if x.isZero then .infinite true
  else if x.isNegative then .nan
  else fn.ln x

/-- The logarithm of `x` to the base `b`. -/
def log (fn : Elementary) (x b : Double) : Double :=
  divide (ln fn x) (ln fn b)

def log10 (fn : Elementary) (x : Double) : Double :=
  if x.isZero then .infinite true
  else if x.isNegative then .nan
  else fn.log10 x

/-- The cube root, through the power with exponent one third; it has the sign of its argument. -/
def cbrt (fn : Elementary) (x : Double) : Double :=
  (power fn x.abs (divide one (Double.ofNat 3))).withSign x.isNegative

/-- The `n`-th root.  An odd root of a negative number is negative. -/
def nroot (fn : Elementary) (x n : Double) : Double :=
  if x.lt (Double.zero false) && n.isOddInteger then (power fn x.neg (divide one n)).neg
  else power fn x (divide one n)

def exp2 (fn : Elementary) (x : Double) : Double :=
  power fn (Double.ofNat 2) x

/-! ### Angles -/

/-- An angle in degrees, in radians. -/
def radians (x : Double) : Double :=
  x.mul (pi.div (Double.ofNat 180))

/-- An angle in radians, in degrees. -/
def degrees (x : Double) : Double :=
  x.mul ((Double.ofNat 180).div pi)

/-- The reciprocal of a function. -/
def reciprocal (f : Double → Double) (x : Double) : Double :=
  divide one (f x)

/-- A function of the reciprocal. -/
def ofReciprocal (f : Double → Double) (x : Double) : Double :=
  f (divide one x)

/-- The inverse cotangent; of zero it is a right angle. -/
def acot (fn : Elementary) (x : Double) : Double :=
  if x.isZero then pi.div (Double.ofNat 2) else fn.atan (one.div x)

end Kernel

end DeskCalc
