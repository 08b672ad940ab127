import DeskCalc.Decimal.Shortest
import DeskCalc.Function
import DeskCalc.Operator
import DeskCalc.Text.Quoted

/-!
# Tokens

The words of an expression.  A token knows whether it ends an operand and whether it begins one; between two such
tokens a product is meant.  `Token.same` compares tokens as values, so numbers by their numerical value, and
`Token.text` is the form in which they are logged.
-/

namespace DeskCalc

inductive Token where
  | number (value : Double)
  | previous (value : Double)
  | constant (name : String) (value : Double)
  | operator (op : Operator)
  | function (f : Function)
  | opening
  | closing
  | comma
  deriving DecidableEq, Repr

namespace Token

def ofConstant (c : Constant) : Token :=
  constant c.name c.value

/-- The value of an operand. -/
def value? : Token → Option Double
  | number x | previous x | constant _ x => some x
  | _ => none

/-- Whether an operand ends with this token. -/
def endsOperand : Token → Bool
  | number _ | previous _ | constant _ _ | closing => true
  | _ => false

/-- Whether an operand begins with this token. -/
def beginsOperand : Token → Bool
  | number _ | previous _ | constant _ _ | function _ | opening => true
  | _ => false

/-- Equality of kind and content; of a constant only the name counts. -/
def same : Token → Token → Bool
  | number x, number y => x.numEq y
  | previous x, previous y => x.numEq y
  | constant n _, constant m _ => n == m
  | operator op, operator op' => op == op'
  | function f, function g => f == g
  | opening, opening => true
  | closing, closing => true
  | comma, comma => true
  | _, _ => false

/-- The kind of a token, as it is logged. -/
def kind : Token → String
  | number _ => "Number"
  | previous _ => "PrevAnswer"
  | constant _ _ => "Constant"
  | operator _ => "Operator"
  | function _ => "Function"
  | opening => "LParen"
  | closing => "RParen"
  | comma => "Comma"

/-- The content of a token, as it is logged. -/
def content : Token → String
  | number x | previous x => x.toText
  | constant n _ => quotedText n
  | operator op =>
    let symbol := quotedText (String.singleton op.symbol)
    if op.arity = 1 then symbol ++ ", unary" else symbol
  | function f => quotedText f.name
  | opening | closing | comma => ""

def text (t : Token) : String :=
  t.kind ++ "(" ++ t.content ++ ")"

/-- A list of tokens, as it is logged. -/
def listText (ts : List Token) : String :=
  "[" ++ ", ".intercalate (ts.map text) ++ "]"

end Token

end DeskCalc
