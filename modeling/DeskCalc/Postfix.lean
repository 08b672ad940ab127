import DeskCalc.Fault

/-!
# From infix to postfix order

Tokens are read one by one (`Conversion.read`).  Operands go to the output at once; operators, functions and open
parentheses wait on a stack.  An operator first sends out what precedes it, a closing parenthesis everything down to
its opening one and then the function below it, if there is one.

An open parenthesis counts the arguments read inside it.  What it belongs to is read off the stack: the function
directly below it, nothing if it stands at the bottom, and else it is a bare group.  No access to the stack can
fail, since every case of a missing entry is a fault of the input.
-/

namespace DeskCalc

/-- What waits on the stack. -/
inductive Pending where
  | operator (op : Operator)
  | function (f : Function)
  | group (arguments : Nat)
  deriving DecidableEq, Repr

namespace Pending

/-- The token that goes to the output in the end; an open parenthesis leaves none. -/
def token? : Pending → Option Token
  | operator op => some (.operator op)
  | function f => some (.function f)
  | group _ => none

end Pending

/-- The state of the conversion: what waits, topmost first; the output, latest first; and the last token read. -/
structure Conversion where
  stack : List Pending
  output : List Token
  last : Option Token
  deriving DecidableEq, Repr

namespace Conversion

def start : Conversion :=
  ⟨[], [], none⟩

/-- Whether a sign that comes now is a prefix: at the start and after an open parenthesis, an operator or a comma. -/
def expectsOperand : Option Token → Bool
  | none | some .opening | some (.operator _) | some .comma => true
  | _ => false

/-- Whether nothing has been read of the current argument. -/
def argumentIsEmpty : Option Token → Bool
  | some .opening | some .comma => true
  | _ => false

/-- Sends the operators and functions above the topmost open parenthesis to the output.  The result is the number of
arguments of that parenthesis, what waits below it, and the output; nothing if no parenthesis is open. -/
def unwind (output : List Token) : List Pending → Option (Nat × List Pending × List Token)
  | [] => none
  | .group n :: below => some (n, below, output)
  | .operator op :: below => unwind (.operator op :: output) below
  | .function f :: below => unwind (.function f :: output) below

/-- Sends the operators that precede `op` to the output and lets `op` wait. -/
def pushOperator (op : Operator) (output : List Token) : List Pending → List Pending × List Token
  | .operator top :: below =>
    if top.precedes op then pushOperator op (.operator top :: output) below
    else (.operator op :: .operator top :: below, output)
  | stack => (.operator op :: stack, output)

/-- Reads a comma: it begins the next argument of a call.  Directly inside a parenthesis at the bottom of the stack
it is let through. -/
def readComma (s : Conversion) : Except Fault Conversion :=
  if argumentIsEmpty s.last then .error .emptyArgument
  else
    match unwind s.output s.stack with
    | none => .error .unmatchedParenthesis
    | some (n, below, output) =>
      match below with
      | [] | .function _ :: _ => .ok ⟨.group (n + 1) :: below, output, some .comma⟩
      | _ => .error .strayComma

/-- Reads a closing parenthesis: the call or group is complete. -/
def readClosing (s : Conversion) : Except Fault Conversion :=
  if s.last = some .comma then .error .emptyArgument
  else
    match unwind s.output s.stack with
    | none => .error .unmatchedParenthesis
    | some (n, .function f :: below, output) =>
      if n < f.arity then .error (.tooFewArguments f n)
      else .ok ⟨below, .function f :: output, some .closing⟩
    | some (_, below, output) => .ok ⟨below, output, some .closing⟩

/-- Reads an operator.  Where an operand is expected, a minus is a sign change, a plus is left out, and any other
operator lacks its left operand. -/
def readOperator (s : Conversion) (op : Operator) : Except Fault Conversion :=
  let last := some (Token.operator op)
  if expectsOperand s.last then
    if op.symbol = '-' then
      let (stack, output) := pushOperator .negate s.output s.stack
      .ok ⟨stack, output, last⟩
    else if op.symbol = '+' then .ok ⟨s.stack, s.output, last⟩
    else .error .operandImbalance
  else
    let (stack, output) := pushOperator op s.output s.stack
    .ok ⟨stack, output, last⟩

def read (s : Conversion) (t : Token) : Except Fault Conversion :=
  match t with
  | .number _ | .previous _ | .constant _ _ => .ok ⟨s.stack, t :: s.output, some t⟩
  | .function f => .ok ⟨.function f :: s.stack, s.output, some t⟩
  | .opening => .ok ⟨.group 1 :: s.stack, s.output, some t⟩
  | .comma => s.readComma
  | .closing => s.readClosing
  | .operator op => s.readOperator op

/-- Sends everything that waits to the output; a parenthesis that is still open is a fault. -/
def drain (output : List Token) : List Pending → Except Fault (List Token)
  | [] => .ok output
  | .operator op :: below => drain (.operator op :: output) below
  | .function f :: below => drain (.function f :: output) below
  | .group _ :: _ => .error .unmatchedParenthesis

def finish (s : Conversion) : Except Fault (List Token) :=
  (drain s.output s.stack).map List.reverse

end Conversion

/-- The tokens of an infix expression in postfix order. -/
def toPostfix (tokens : List Token) : Except Fault (List Token) := do
  let s ← tokens.foldlM Conversion.read Conversion.start
  s.finish

end DeskCalc
