/-!
# Buttons and keys

The buttons of the window in their grid, what pressing them means, and which keys stand for a button.  A label
without a meaning of its own is text that is typed.
-/

namespace DeskCalc

namespace Label

def settings : List Char :=
  ['⚙']

def copy : List Char :=
  ['📋']

/-- The label of the clipboard button while it pastes. -/
def paste : List Char :=
  ['📑']

def undo : List Char :=
  ['↶']

def redo : List Char :=
  ['↷']

def enter : List Char :=
  ['⏎']

/-- The label of the enter button while a calculation is running. -/
def busy : List Char :=
  ['X']

def backspace : List Char :=
  ['<']

def clear : List Char :=
  ['C']

end Label

/-- The labels of the buttons, row by row. -/
def buttonRows : List (List String) :=
  [["⚙", "📋", "↷", "↶", "<"],
    ["π", "e", "_", "√(", "/"],
    ["sin(", "(", ")", "^", "*"],
    ["cos(", "7", "8", "9", "-"],
    ["tan(", "4", "5", "6", "+"],
    ["ln(", "1", "2", "3", "log("],
    ["C", ",", "0", ".", "⏎"]]

/-- The buttons with their rows and columns. -/
def buttonGrid : List (String × Nat × Nat) :=
  buttonRows.zipIdx.flatMap fun row => row.1.zipIdx.map fun b => (b.1, row.2, b.2)

/-- What a press on a button means. -/
inductive Button where
  | backspace
  | clear
  | undo
  | redo
  | clipboard
  | enter
  | text (s : List Char)
  deriving DecidableEq, Repr

/-- The meaning of a button with the given label. -/
def Button.ofLabel (label : List Char) : Button :=
  if label = Label.backspace then backspace
  else if label = Label.clear then clear
  else if label = Label.undo then undo
  else if label = Label.redo then redo
  else if label = Label.copy then clipboard
  else if label = Label.enter then enter
  else text label

/-- The keys that the window tells apart. -/
inductive Key where
  | shift
  | carriageReturn
  | enter
  | backspace
  | other
  deriving DecidableEq, Repr

/-- The characters that can be typed, in their order on the keyboard's list. -/
def typeable : List Char :=
  "0123456789.+-*/^(),_".toList

/-- Whether `s` stands somewhere in `t`. -/
def occursIn (s : List Char) : List Char → Bool
  | [] => s.isEmpty
  | c :: rest => s.isPrefixOf (c :: rest) || occursIn s rest

/-- The label of the button that a key with the given text stands for. -/
def Key.label? (text : List Char) : Key → Option (List Char)
  | shift => none
  | carriageReturn | enter => some Label.enter
  | backspace => some Label.backspace
  | other => if text ≠ [] ∧ occursIn text typeable then some text else none

end DeskCalc
