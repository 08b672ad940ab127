import DeskCalc.Kernel

/-!
# The functions and constants of the calculator

The named functions, their kernels and the two constants.  A name determines its function (`Function.ofName?`);
the sign `√` is another way to write the square root.  The six forward angle functions read their argument in the
current angle mode, all other functions ignore it.
-/

namespace DeskCalc

/-- How the forward angle functions read their argument. -/
inductive AngleMode where
  | degrees
  | radians
  deriving DecidableEq, Repr

def AngleMode.ofRadians (b : Bool) : AngleMode :=
  if b then .radians else .degrees

inductive Function where
  | sin | cos | tan | csc | sec | cot
  | sinh | cosh | tanh
  | asin | acos | atan | acsc | asec | acot
  | deg | rad
  | sqrt | cbrt | ln | log10 | exp | exp2
  | abs | ceil | floor | round
  | nroot | log | min | max
  deriving DecidableEq, Repr

namespace Function

def all : List Function :=
  [sin, cos, tan, csc, sec, cot, sinh, cosh, tanh, asin, acos, atan, acsc, asec, acot, deg, rad, sqrt, cbrt, ln,
    log10, exp, exp2, abs, ceil, floor, round, nroot, log, min, max]

def name : Function → String
  | sin => "sin"
  | cos => "cos"
  | tan => "tan"
  | csc => "csc"
  | sec => "sec"
  | cot => "cot"
  | sinh => "sinh"
  | cosh => "cosh"
  | tanh => "tanh"
  | asin => "asin"
  | acos => "acos"
  | atan => "atan"
  | acsc => "acsc"
  | asec => "asec"
  | acot => "acot"
  | deg => "deg"
  | rad => "rad"
  | sqrt => "sqrt"
  | cbrt => "cbrt"
  | ln => "ln"
  | log10 => "log10"
  | exp => "exp"
  | exp2 => "exp2"
  | abs => "abs"
  | ceil => "ceil"
  | floor => "floor"
  | round => "round"
  | nroot => "nroot"
  | log => "log"
  | min => "min"
  | max => "max"

def arity : Function → Nat
  | nroot | log | min | max => 2
  | _ => 1

/-- The functions whose argument is an angle. -/
def angular : List Function :=
  [sin, cos, tan, csc, sec, cot]

/-- The function with the given name. -/
def ofName? (name : String) : Option Function :=
  all.find? fun f => f.name == name

/-- Other ways to write a function. -/
def aliases : List (String × Function) :=
  [("√", sqrt)]

/-- The function that is written with the given name or sign. -/
def ofWord? (word : String) : Option Function :=
  match aliases.lookup word with
  | some f => some f
  | none => ofName? word

open Kernel in
/-- The kernel of a function that reads angles in radians. -/
def kernel (fn : Elementary) : Function → Kernel
  | sin => unary (quiet fn.sin)
  | cos => unary (quiet fn.cos)
  | tan => unary (quiet fn.tan)
  | csc => unary (reciprocal (quiet fn.sin))
  | sec => unary (reciprocal (quiet fn.cos))
  | cot => unary (reciprocal (quiet fn.tan))
  | sinh => unary (quietOdd fn.sinh)
  | cosh => unary (quiet fn.cosh)
  | tanh => unary (quiet fn.tanh)
  | asin => unary (quiet fn.asin)
  | acos => unary (quiet fn.acos)
  | atan => unary (quiet fn.atan)
  | acsc => unary (ofReciprocal (quiet fn.asin))
  | asec => unary (ofReciprocal (quiet fn.acos))
  | acot => unary (Kernel.acot fn)
  | deg => unary Kernel.degrees
  | rad => unary Kernel.radians
  | sqrt => unary Double.sqrt
  | cbrt => unary (Kernel.cbrt fn)
  | ln => unary (Kernel.ln fn)
  | log10 => unary (Kernel.log10 fn)
  | exp => unary (quiet fn.exp)
  | exp2 => unary (Kernel.exp2 fn)
  | abs => unary Double.abs
  | ceil => unary Double.ceil
  | floor => unary Double.floor
  | round => unary Double.roundHalfAway
  | nroot => binary (Kernel.nroot fn)
  | log => binary (Kernel.log fn)
  | min => binary Double.min
  | max => binary Double.max

theorem arity_kernel (fn : Elementary) (f : Function) : (f.kernel fn).arity = f.arity := by
  cases f <;> rfl

/-- The kernel of a function in an angle mode. -/
def kernelIn (fn : Elementary) (mode : AngleMode) (f : Function) : Kernel :=
  if mode = .degrees ∧ f ∈ angular then (f.kernel fn).after Kernel.radians else f.kernel fn

theorem arity_kernelIn (fn : Elementary) (mode : AngleMode) (f : Function) :
    (f.kernelIn fn mode).arity = f.arity := by
  unfold kernelIn
  split
  · cases f <;> rfl
  · exact arity_kernel fn f

end Function

inductive Constant where
  | e
  | pi
  deriving DecidableEq, Repr

namespace Constant

def all : List Constant :=
  [e, pi]

def name : Constant → String
  | e => "e"
  | pi => "pi"

def value : Constant → Double
  | e => Kernel.e
  | pi => Kernel.pi

/-- Every way to write a constant. -/
def spellings : List (String × Constant) :=
  [("e", e), ("pi", pi), ("π", pi)]

end Constant

end DeskCalc
