import DeskCalc.Proofs.Literal

/-!
# Source items

The lexical grammar of the calculator.  A text is a concatenation of items: numeric literals, the constants `e`,
`pi` and `π`, the sign `_`, operators, parentheses, commas, function names and `√`.  An item restricts what may
come after it (`Item.mayPrecede`), and `Spells` says that items without a conflict spell a text.

The tokens of items are their own tokens with a product between any two neighbours that end and begin an operand
(`Item.tokensOf`).
-/

namespace DeskCalc

/-- The number that stands for the previous answer, if there is one. -/
def PreviousAnswer.number? : PreviousAnswer → Option Double
  | absent => none
  | value x => some x
  | text s => readDouble s.toList

inductive Item where
  | literal (l : Literal)
  | constant (c : Constant)
  | piSign
  | previous
  | operator (op : Operator) (binary : op ≠ .negate)
  | doubleStar
  | opening
  | closing
  | comma
  | function (f : Function)
  | rootSign

namespace Item

/-- The text of an item. -/
def spelling : Item → List Char
  | literal l => l.text
  | constant c => c.name.toList
  | piSign => ['π']
  | previous => ['_']
  | operator op _ => [op.symbol]
  | doubleStar => ['*', '*']
  | opening => ['(']
  | closing => [')']
  | comma => [',']
  | function f => f.name.toList
  | rootSign => ['√']

/-- The token of an item; a literal stands for the number that its text is read as. -/
def token (answer : Double) : Item → Token
  | literal l => .number ((readDouble l.text).getD .nan)
  | constant c => .constant c.name c.value
  | piSign => .constant Constant.pi.name Constant.pi.value
  | previous => .previous answer
  | operator op _ => .operator op
  | doubleStar => .operator .power
  | opening => .opening
  | closing => .closing
  | comma => .comma
  | function f => .function f
  | rootSign => .function .sqrt

/-- Whether an item may come before `next`: literals do not touch, a star is not followed by a star, and a function
is followed by its parenthesis. -/
def mayPrecede : Item → Option Item → Prop
  | literal _, some (literal _) => False
  | operator .multiply _, some (operator .multiply _) => False
  | operator .multiply _, some doubleStar => False
  | function _, next => next = some opening
  | rootSign, next => next = some opening
  | _, _ => True

/-- Whether an operand ends with the item. -/
def endsOperand : Item → Bool
  | literal _ | constant _ | piSign | previous | closing => true
  | _ => false

/-- Whether an operand begins with the item. -/
def beginsOperand : Item → Bool
  | literal _ | constant _ | piSign | previous | function _ | rootSign | opening => true
  | _ => false

/-- The tokens of items, with a product between an item that ends an operand and one that begins one. -/
def tokensOf (answer : Double) : List Item → List Token
  | [] => []
  | [i] => [i.token answer]
  | i :: j :: rest =>
    let product : List Token := if i.endsOperand && j.beginsOperand then [.operator .multiply] else []
    i.token answer :: (product ++ tokensOf answer (j :: rest))

/-- Whether no item of the list stands in conflict with the next one, and the previous answer is only used if there
is one. -/
def Compatible (answer : Option Double) : List Item → Prop
  | [] => True
  | i :: rest => i.mayPrecede rest.head? ∧ (i = previous → answer.isSome = true) ∧ Compatible answer rest

end Item

/-- The items are compatible and spell the text. -/
structure Spells (answer : Option Double) (items : List Item) (s : List Char) : Prop where
  compatible : Item.Compatible answer items
  spelling_eq : items.flatMap Item.spelling = s

end DeskCalc
