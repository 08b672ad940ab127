import DeskCalc.Kernel

/-!
# Operators

The five infix operators and the sign change, with their precedences.  The sign change binds tighter than every
infix operator, so `-2 ^ 2` is the square of `-2`.
-/

namespace DeskCalc

inductive Operator where
  | add
  | subtract
  | multiply
  | divide
  | power
  | negate
  deriving DecidableEq, Repr

inductive Associativity where
  | left
  | right
  deriving DecidableEq, Repr

namespace Operator

/-- The infix operators and then the sign change. -/
def all : List Operator :=
  [add, subtract, multiply, divide, power, negate]

def symbol : Operator → Char
  | add => '+'
  | subtract => '-'
  | multiply => '*'
  | divide => '/'
  | power => '^'
  | negate => '-'

def precedence : Operator → Nat
  | add | subtract => 2
  | multiply | divide => 3
  | power => 4
  | negate => 5

def associativity : Operator → Associativity
  | power | negate => .right
  | _ => .left

def arity : Operator → Nat
  | negate => 1
  | _ => 2

/-- The infix operator with the given symbol. -/
def ofSymbol? : Char → Option Operator
  | '+' => some add
  | '-' => some subtract
  | '*' => some multiply
  | '/' => some divide
  | '^' => some power
  | _ => none

def kernel (fn : Elementary) : Operator → Kernel
  | add => .binary Double.add
  | subtract => .binary Double.sub
  | multiply => .binary Double.mul
  | divide => .binary Kernel.divide
  | power => .binary (Kernel.power fn)
  | negate => .unary Double.neg

theorem arity_kernel (fn : Elementary) (op : Operator) : (op.kernel fn).arity = op.arity := by
  cases op <;> rfl

/-- Whether `op`, waiting on the stack, comes before `next`: it binds tighter, or as tight and from the left. -/
def precedes (op next : Operator) : Bool :=
  next.precedence < op.precedence || (op.precedence == next.precedence && next.associativity == .left)

end Operator

end DeskCalc
