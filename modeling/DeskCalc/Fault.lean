import DeskCalc.Json
import DeskCalc.Token

/-!
# Faults

What can be wrong with a problem, by cause.  A fault is reported with a kind, a code of four digits and a message
(`Fault.report`); the first digit of the code is its family, the second one the stage.  A call for help travels
the same way but is no failure.  A report remembers the problem it belongs to, if there is one.
-/

namespace DeskCalc

/-- A setting out of its range.  The report of a number of decimal places shows it, so there is none if it cannot be
shown. -/
inductive SettingFault where
  | places (shown : Text)
  | unshown (error : Json.ShowError)
  | radix
  deriving DecidableEq, Repr

inductive Fault where
  | help (usage : String)
  | unmatchedParenthesis
  | strayComma
  | unexpectedCharacter (c : Char)
  | bareFunction (f : Function)
  | emptyArgument
  | operandImbalance
  | strayToken (t : Token)
  | tooFewArguments (f : Function) (given : Nat)
  | unknownName (word : String)
  | malformedNumber (literal : String)
  | noPreviousAnswer
  | unreadableAnswer (text : String)
  | setting (fault : SettingFault)
  deriving DecidableEq, Repr

/-- The kinds of reports, by the stage they come from. -/
inductive ReportKind where
  | general
  | help
  | syntactic
  | parsing
  | lexical
  | configuration
  deriving DecidableEq, Repr

structure Report where
  kind : ReportKind
  code : String
  message : Text
  equation : Option String
  deriving DecidableEq, Repr

namespace ReportKind

/-- The heading of a report of this kind. -/
def label : ReportKind → String
  | general => "Error"
  | help => "Help"
  | syntactic => "Syntax Error"
  | parsing => "Parser Error"
  | lexical => "Lexer Error"
  | configuration => "Configuration Error"

/-- The code of a report that names none. -/
def defaultCode : ReportKind → String
  | help => "1000"
  | _ => "9999"

end ReportKind

namespace Report

/-- The families of codes, by their first digit. -/
def families : List (String × String) :=
  [("1", "Help"), ("3", "Calculator Error"), ("5", "Configuration Error"), ("9", "Unexpected Error")]

/-- The general meaning of each code. -/
def catalogue : List (String × String) :=
  [("1000", "Help requested."), ("3100", "Mismatched parentheses!"),
    ("3101", "Comma without matching function call!"), ("3102", "Unexpected character: "),
    ("3103", "Function expected parentheses: "), ("3104", "Empty argument!"),
    ("3200", "Too many operators, Too little operands"), ("3201", "Too few arguments for function: "),
    ("3300", "Unknown function or constant: "), ("3301", "Malformed number: "),
    ("3302", "No previous answer available!"), ("5000", "Invalid number of decimal places: "),
    ("5001", "Base too large! Accepted ranges: 2 - 36"), ("5002", "Invalid configuration value: "),
    ("9999", "Unexpected Error: ")]

/-- The report as it is shown to the user: help without a heading, all else under its heading. -/
def shown (r : Report) : Text :=
  match r.kind with
  | .help => r.message
  | kind => Text.ofString (kind.label ++ ": ") ++ r.message

/-- How a failure without a report is shown. -/
def unexpected (message : Text) : Text :=
  Text.ofString "Unexpected Error: " ++ message

end Report

namespace SettingFault

/-- The fault of a number of decimal places that is shown in the given way. -/
def ofShown : Except Json.ShowError Text → SettingFault
  | .ok shown => places shown
  | .error e => unshown e

def kind : SettingFault → ReportKind
  | unshown _ => .general
  | _ => .configuration

theorem kind_ne_help (f : SettingFault) : f.kind ≠ .help := by
  cases f <;> exact nofun

def code : SettingFault → String
  | places _ => "5000"
  | unshown _ => "9999"
  | radix => "5001"

def message : SettingFault → Text
  | places shown => Text.ofString "Invalid number of decimal places: " ++ shown
  | unshown e => e.message
  | radix => "Base too large! Accepted ranges: 2 - 36"

/-- The report of a fault.  A fault that cannot be shown is reported only where errors of all kinds are. -/
def report (f : SettingFault) : Report :=
  ⟨f.kind, f.code, f.message, none⟩

end SettingFault

namespace Fault

def kind : Fault → ReportKind
  | help _ => .help
  | unmatchedParenthesis | strayComma | unexpectedCharacter _ | bareFunction _ | emptyArgument => .syntactic
  | operandImbalance | strayToken _ | tooFewArguments _ _ => .parsing
  | unknownName _ | malformedNumber _ | noPreviousAnswer => .lexical
  | unreadableAnswer _ => .general
  | setting f => f.kind

def code : Fault → String
  | help _ => "1000"
  | unmatchedParenthesis => "3100"
  | strayComma => "3101"
  | unexpectedCharacter _ => "3102"
  | bareFunction _ => "3103"
  | emptyArgument => "3104"
  | operandImbalance | strayToken _ => "3200"
  | tooFewArguments _ _ => "3201"
  | unknownName _ => "3300"
  | malformedNumber _ => "3301"
  | noPreviousAnswer => "3302"
  | unreadableAnswer _ => "9999"
  | setting f => f.code

def message : Fault → Text
  | help usage => usage
  | unmatchedParenthesis => "Mismatched parentheses!"
  | strayComma => "Comma without matching function call!"
  | unexpectedCharacter c => "Unexpected character '" ++ String.singleton c ++ "'"
  | bareFunction f => s!"Function '{f.name}' expected parentheses"
  | emptyArgument => "Empty argument!"
  | operandImbalance => "Too many operators, Too little operands"
  | strayToken t => s!"Unexpected token in postfix expression: {t.text}"
  | tooFewArguments f given => s!"Too few arguments ({given}) for function {f.name} (requires {f.arity})!"
  | unknownName word => s!"Unknown function or constant '{word}'"
  | malformedNumber literal => s!"Malformed number '{literal}'"
  | noPreviousAnswer => "No previous answer available!"
  | unreadableAnswer text => "could not convert string to float: " ++ quotedText text
  | setting f => f.message

/-- The report of a fault in the problem `equation`. -/
def report (f : Fault) (equation : Option String) : Report :=
  ⟨f.kind, f.code, f.message, equation⟩

end Fault

end DeskCalc
