import DeskCalc.Fault

/-!
# Evaluating postfix order

An operand is pushed, an operator or function replaces its arguments on top of the stack by its result
(`Kernel.onStack`).  In the end exactly one value has to be left.
-/

namespace DeskCalc

/-- One token on the stack, whose top comes first. -/
def evalStep (fn : Elementary) (mode : AngleMode) (stack : List Double) (t : Token) :
    Except Fault (List Double) :=
  match t with
  | .number x | .previous x | .constant _ x => .ok (x :: stack)
  | .operator op => ((op.kernel fn).onStack stack).elim (.error .operandImbalance) .ok
  | .function f => ((f.kernelIn fn mode).onStack stack).elim (.error .operandImbalance) .ok
  | .opening | .closing | .comma => .error (.strayToken t)

/-- The value of a list of tokens in postfix order. -/
def evalPostfix (fn : Elementary) (mode : AngleMode) (tokens : List Token) : Except Fault Double := do
  match ← tokens.foldlM (evalStep fn mode) [] with
  | [x] => .ok x
  | _ => .error .operandImbalance

end DeskCalc
