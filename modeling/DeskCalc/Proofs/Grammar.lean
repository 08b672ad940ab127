import DeskCalc.Postfix
import DeskCalc.StackMachine

/-!
# The infix grammar

Derivation trees of the expressions of the calculator:

* `sum` is `product (('+' | '-') product)*`, grouped from the left;
* `product` is `power (('*' | '/') power)*`, grouped from the left;
* `power` is `signed ['^' power]`, grouped from the right;
* `signed` is `'-' signed | '+' signed | atom`;
* `atom` is a number, a constant, the previous answer, `'(' sum ')'`, or a function with as many arguments as it
  takes, `function '(' sum (',' sum)* ')'`.

A tree has a `yield`, the tokens it derives, a `postorder`, in which parentheses, commas and the sign `+` have
vanished, and a `value`, which is defined by recursion with the kernels of the calculator.
-/

namespace DeskCalc

/-- The syntactic categories: four levels of expressions, atoms, and the arguments of a call. -/
inductive Category where
  | sum
  | product
  | power
  | signed
  | atom
  | arguments (count : Nat)
  deriving DecidableEq, Repr

/-- The derivation trees of a category. -/
inductive Derivation : Category → Type where
  | number (x : Double) : Derivation .atom
  | previous (x : Double) : Derivation .atom
  | constant (name : String) (x : Double) : Derivation .atom
  | group (e : Derivation .sum) : Derivation .atom
  | call (f : Function) (args : Derivation (.arguments f.arity)) : Derivation .atom
  | ofAtom (a : Derivation .atom) : Derivation .signed
  | minus (u : Derivation .signed) : Derivation .signed
  | plus (u : Derivation .signed) : Derivation .signed
  | ofSigned (u : Derivation .signed) : Derivation .power
  | raise (u : Derivation .signed) (p : Derivation .power) : Derivation .power
  | ofPower (p : Derivation .power) : Derivation .product
  | multiply (q : Derivation .product) (p : Derivation .power) : Derivation .product
  | divide (q : Derivation .product) (p : Derivation .power) : Derivation .product
  | ofProduct (q : Derivation .product) : Derivation .sum
  | add (e : Derivation .sum) (q : Derivation .product) : Derivation .sum
  | subtract (e : Derivation .sum) (q : Derivation .product) : Derivation .sum
  | first (e : Derivation .sum) : Derivation (.arguments 1)
  | next {count : Nat} (args : Derivation (.arguments count)) (e : Derivation .sum) :
      Derivation (.arguments (count + 1))

namespace Operator

/-- The category of an expression whose root is the operator. -/
def category : Operator → Category
  | add | subtract => .sum
  | multiply | divide => .product
  | power => .power
  | negate => .signed

/-- The category of the operand before an infix operator. -/
def leftCategory : Operator → Category
  | add | subtract => .sum
  | multiply | divide => .product
  | power | negate => .signed

/-- The category of the operand after the operator. -/
def rightCategory : Operator → Category
  | add | subtract => .product
  | multiply | divide | power => .power
  | negate => .signed

end Operator

/-- What a tree of the category denotes: the arguments of a call are a list of numbers. -/
def Category.Meaning : Category → Type
  | arguments _ => List Double
  | _ => Double

/-- The result of a kernel for a list of as many arguments as it takes. -/
def Kernel.apply : Kernel → List Double → Double
  | unary f, [x] => f x
  | binary f, [x, y] => f x y
  | _, _ => .nan

namespace Derivation

/-- The tokens that the tree derives. -/
def yield {c : Category} : Derivation c → List Token
  | number x => [.number x]
  | previous x => [.previous x]
  | constant n x => [.constant n x]
  | group e => .opening :: (e.yield ++ [.closing])
  | call f args => .function f :: .opening :: (args.yield ++ [.closing])
  | ofAtom a => a.yield
  | minus u => .operator .subtract :: u.yield
  | plus u => .operator .add :: u.yield
  | ofSigned u => u.yield
  | raise u p => u.yield ++ .operator .power :: p.yield
  | ofPower p => p.yield
  | multiply q p => q.yield ++ .operator .multiply :: p.yield
  | divide q p => q.yield ++ .operator .divide :: p.yield
  | ofProduct q => q.yield
  | add e q => e.yield ++ .operator .add :: q.yield
  | subtract e q => e.yield ++ .operator .subtract :: q.yield
  | first e => e.yield
  | next args e => args.yield ++ .comma :: e.yield

/-- The operands, operators and functions of the tree, each after its arguments. -/
def postorder {c : Category} : Derivation c → List Token
  | number x => [.number x]
  | previous x => [.previous x]
  | constant n x => [.constant n x]
  | group e => e.postorder
  | call f args => args.postorder ++ [.function f]
  | ofAtom a => a.postorder
  | minus u => u.postorder ++ [.operator .negate]
  | plus u => u.postorder
  | ofSigned u => u.postorder
  | raise u p => u.postorder ++ p.postorder ++ [.operator .power]
  | ofPower p => p.postorder
  | multiply q p => q.postorder ++ p.postorder ++ [.operator .multiply]
  | divide q p => q.postorder ++ p.postorder ++ [.operator .divide]
  | ofProduct q => q.postorder
  | add e q => e.postorder ++ q.postorder ++ [.operator .add]
  | subtract e q => e.postorder ++ q.postorder ++ [.operator .subtract]
  | first e => e.postorder
  | next args e => args.postorder ++ e.postorder

/-- The value of the tree, and of arguments the list of their values. -/
def value (fn : Elementary) (mode : AngleMode) {c : Category} : Derivation c → c.Meaning
  | number x => x
  | previous x => x
  | constant _ x => x
  | group e => e.value fn mode
  | call f args => (f.kernelIn fn mode).apply (args.value fn mode)
  | ofAtom a => a.value fn mode
  | minus u => (Operator.negate.kernel fn).apply [u.value fn mode]
  | plus u => u.value fn mode
  | ofSigned u => u.value fn mode
  | raise u p => (Operator.power.kernel fn).apply [u.value fn mode, p.value fn mode]
  | ofPower p => p.value fn mode
  | multiply q p => (Operator.multiply.kernel fn).apply [q.value fn mode, p.value fn mode]
  | divide q p => (Operator.divide.kernel fn).apply [q.value fn mode, p.value fn mode]
  | ofProduct q => q.value fn mode
  | add e q => (Operator.add.kernel fn).apply [e.value fn mode, q.value fn mode]
  | subtract e q => (Operator.subtract.kernel fn).apply [e.value fn mode, q.value fn mode]
  | first e => [e.value fn mode]
  | next args e => List.append (args.value fn mode) [e.value fn mode]

end Derivation

end DeskCalc
