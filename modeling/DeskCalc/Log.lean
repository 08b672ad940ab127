/-!
# The log

What the calculator tells about its work: entries with a level and the part of the program that wrote them.
-/

namespace DeskCalc

inductive LogLevel where
  | debug
  | warning
  | error
  deriving DecidableEq, Repr

/-- The parts of the program that write to the log. -/
inductive LogSource where
  | program
  | parentheses
  | lexing
  | conversion
  | stackMachine
  | calculation
  | settings
  | window
  deriving DecidableEq, Repr

structure LogEntry where
  level : LogLevel
  source : LogSource
  text : String
  deriving DecidableEq, Repr

def LogLevel.label : LogLevel → String
  | debug => "DEBUG"
  | warning => "WARNING"
  | error => "ERROR"

def LogSource.label : LogSource → String
  | program => "main"
  | parentheses => "Calculator.Preprocessor"
  | lexing => "Calculator.Lexer"
  | conversion => "Calculator.Parser"
  | stackMachine => "Calculator.Evaluator"
  | calculation => "Calculator.MathEngine"
  | settings => "Calculator.config_manager"
  | window => "Calculator.UI"

/-- An entry as a line of text. -/
def LogEntry.line (e : LogEntry) : String :=
  s!"{e.level.label} {e.source.label}: {e.text}"

end DeskCalc
