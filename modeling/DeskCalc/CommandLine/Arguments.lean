import DeskCalc.CommandLine.Words
import DeskCalc.Decimal.Reading
import DeskCalc.Json

/-!
# The arguments of a command line

The words of a command line are read from left to right.  The first operand is the problem, further operands are
refused at the end together with all unknown words.  An option that waits for its value takes the next word if that
is an operand.  Of an option given twice the last value counts.  The call for help stops the reading.

A value is an integer.  By the earlier rules of the host the word `--` stands for no value even where it is written as
one (`--fix=--`); the option is then set to an empty list, which no setting accepts.
-/

namespace DeskCalc

/-- What an option is set to. -/
inductive OptionValue where
  | integer (n : Int)
  | nothing
  deriving DecidableEq, Repr

namespace OptionValue

/-- The value that a text stands for. -/
def ofText? [Host] (text : List Char) : Option OptionValue :=
  if Host.optionRules = .earlier ∧ text = ['-', '-'] then some nothing else (readInteger text).map integer

def toJson : OptionValue → Json
  | integer n => .integer n
  | nothing => .array []

end OptionValue

/-- What a command line asks for. -/
structure Arguments where
  problem : Option String
  fix : Option OptionValue
  base : Option OptionValue
  radian : Bool
  debug : Bool
  refused : List String
  deriving DecidableEq, Repr

/-- Why the reading of a command line stops early. -/
inductive CommandStop where
  | help
  | fault (fault : UsageFault)
  deriving DecidableEq, Repr

namespace Arguments

def empty : Arguments :=
  ⟨none, none, none, false, false, []⟩

section

variable [Host]

/-- Sets an option to a value. -/
def setValue (a : Arguments) (o : CommandOption) (text : List Char) : Except CommandStop Arguments :=
  match OptionValue.ofText? text with
  | none => .error (.fault (.notAnInteger o text))
  | some v =>
    match o with
    | .fix => .ok { a with fix := some v }
    | .base => .ok { a with base := some v }
    | _ => .ok a

/-- Switches an option on. -/
def switch (a : Arguments) : CommandOption → Except CommandStop Arguments
  | .help => .error .help
  | .radian => .ok { a with radian := true }
  | .debug => .ok { a with debug := true }
  | _ => .ok a

def refuse (a : Arguments) (words : List String) : Arguments :=
  { a with refused := a.refused ++ words }

def takeStep (a : Arguments) : CommandStep → Except CommandStop Arguments
  | .option o => a.switch o
  | .value o text => a.setValue o text
  | .awaited o => .error (.fault (.missingValue o))
  | .unknown text => .ok (a.refuse [String.ofList text])

def takeSteps (a : Arguments) (steps : List CommandStep) : Except CommandStop Arguments :=
  steps.foldlM takeStep a

/-- Takes an operand: it is the problem unless there is one already. -/
def takeOperand (a : Arguments) (text : String) : Arguments :=
  if a.problem.isNone then { a with problem := some text } else a.refuse [text]

/-- Reads words; `atProblem` says whether the last word was the problem.  The word `--` is left out before the
problem and directly after it.  An option that lacks its value is refused before any step of its word is taken. -/
def readWords (a : Arguments) (atProblem : Bool) (words : List CommandWord) : Except CommandStop Arguments :=
  match words with
  | [] => .ok a
  | .operand text :: rest => readWords (a.takeOperand text) a.problem.isNone rest
  | .separator :: rest => readWords (if atProblem || a.problem.isNone then a else a.refuse ["--"]) false rest
  | .unknown text :: rest => readWords (a.refuse [text]) false rest
  | .option w :: rest => do
    let steps ← w.steps.mapError CommandStop.fault
    match CommandStep.awaited? steps with
    | none =>
      let b ← a.takeSteps steps
      readWords b false rest
    | some o =>
      match rest with
      | .operand text :: rest =>
        let b ← a.takeSteps (steps.dropLast ++ [.value o text.toList])
        readWords b false rest
      | _ => .error (.fault (.missingValue o))

/-- The arguments on a command line. -/
def ofTexts (texts : List String) : Except CommandStop Arguments := do
  let words ← (CommandWord.ofTexts texts).mapError CommandStop.fault
  let a ← readWords empty false words
  if a.refused.isEmpty then .ok a else .error (.fault (.unrecognized a.refused))

end

/-- The changes of the settings that the options ask for. -/
def overrides (a : Arguments) : List (Text × Json) :=
  let value (v : Option OptionValue) := (v.map OptionValue.toJson).getD .null
  [("fix", value a.fix), ("base", value a.base), ("radian_mode", if a.radian then .bool true else .null)]

end Arguments

/-! ### Usage -/

def usageLine : String :=
  "usage: postfix-calc [-h] [-f FIX] [-b RADIX] [-r] [--debug] [INPUT]\n"

/-- What is printed about a wrong command line. -/
def usageError (f : UsageFault) : String :=
  usageLine ++ "postfix-calc: error: " ++ f.message ++ "\n"

/-- What is printed for the option `--help`. -/
def usageHelp : String :=
  usageLine ++
    "\nCalculator with operator precedence, functions and a previous answer (_).\n" ++
    "\npositional arguments:\n" ++
    "  INPUT                 optional expression string to run in command mode\n" ++
    "\noptions:\n" ++
    "  -h, --help            show this help message and exit\n" ++
    "  -f FIX, --fix FIX     set number of decimal places in the output\n" ++
    "  -b RADIX, --base RADIX\n" ++
    "                        set the radix of calculation output (2 - 36)\n" ++
    "  -r, --radian          take trigonometric arguments in radians\n" ++
    "  --debug               log every pipeline stage\n"

end DeskCalc
