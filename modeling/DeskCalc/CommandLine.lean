import DeskCalc.Calculation.Log
import DeskCalc.CommandLine.Arguments
import DeskCalc.Numeral
import DeskCalc.Settings.Files

/-!
# The command line

A command line with a problem is answered at once: the result is printed, or the report of a fault is printed as an
error.  Without a problem the window is to be opened, if all required files are there.  The options are changes of
the settings in the settings file.

What a run does is a value (`CommandRun`): what is printed, what is printed as an error, and how the run ends.  The
log goes with the errors; entries for debugging are shown only on demand.
-/

namespace DeskCalc

/-- An error that ends the program without a report. -/
inductive CommandFailure where
  | load (error : LoadError)
  | places (defect : PlacesDefect)
  deriving DecidableEq, Repr

inductive CommandEnd where
  | exit (status : Nat)
  | failure (error : CommandFailure)
  | window (settings : Settings) (overrides : List (Text × Json))

structure CommandRun where
  output : String
  errors : Text
  ending : CommandEnd

namespace CommandLine

/-- The files that have to be there before the window is opened. -/
def requiredFiles : List StorePath :=
  [["Calculator", "UI.py"], ["Calculator", "MathEngine.py"], ["Calculator", "ScientificEngine.py"],
    ["Calculator", "config_manager.py"], Files.settingsPath, Files.descriptionsPath]

/-- The names of required files that are missing. -/
def missingFiles (s : Store) : List String :=
  (requiredFiles.filter fun p => (s.find? p).isNone).map fun p => p.getLastD ""

/-- Lines of text. -/
def lines (ls : List String) : String :=
  String.join (ls.map (· ++ "\n"))

/-- A line with the report of a fault. -/
def reportLine (r : Report) : Text :=
  r.shown ++ Text.ofString "\n"

/-- The entries of a log that are shown. -/
def shownLog (debug : Bool) (log : List LogEntry) : String :=
  lines ((log.filter fun e => debug || e.level != .debug).map LogEntry.line)

/-- Answers a problem; nothing has been calculated before it, so the previous answer is zero. -/
def answer (fn : Elementary) (c : Settings) (problem : String) : CommandRun :=
  match evaluate fn (.ofRadians c.radianMode) c.fix (.value (Double.zero false)) problem with
  | .error (.help usage) => ⟨lines [usage], [], .exit 0⟩
  | .error f => ⟨"", reportLine (f.report (some problem)), .exit 1⟩
  | .ok x =>
    match shownNumeral c.base c.fix x with
    | .ok numeral => ⟨lines [String.ofList numeral], [], .exit 0⟩
    | .error (.setting f) => ⟨"", reportLine f.report, .exit 1⟩
    | .error (.places d) => ⟨"", [], .failure (.places d)⟩

/-- What is printed about missing files. -/
def missingText (names : List String) : String :=
  lines ("Error: The following files are missing or in the wrong location:" :: names.map fun n => "- " ++ n)

/-- Opens the window, if all files are there. -/
def openWindow (s : Store) (c : Settings) (overrides : List (Text × Json)) : CommandRun :=
  match missingFiles s with
  | [] => ⟨"", [], .window c overrides⟩
  | names => ⟨"", missingText names, .exit 1⟩

/-- The run with earlier errors. -/
def after (errors : Text) (r : CommandRun) : CommandRun :=
  ⟨r.output, errors ++ r.errors, r.ending⟩

/-- Runs the program with settings. -/
def runWith (fn : Elementary) (s : Store) (a : Arguments) (c : Settings) : CommandRun :=
  let log (entries : List LogEntry) := shownLog a.debug entries
  after (log [⟨.debug, .program, "Config loaded: " ++ c.text⟩]) <|
    match a.problem.getD "" with
    | "" => after (log [⟨.debug, .program, "Developer mode: checking file paths"⟩]) (openWindow s c a.overrides)
    | problem =>
      after (log (calculationLog fn (.ofRadians c.radianMode) c.fix (.value (Double.zero false)) problem))
        (answer fn c problem)

section

variable [Host]

/-- Runs the program with arguments. -/
def runArguments (fn : Elementary) (s : Store) (a : Arguments) : CommandRun :=
  let (log, loaded) := Files.loadSettings s a.overrides
  after (shownLog a.debug log) <|
    match loaded with
    | .ok c => runWith fn s a c
    | .error e =>
      match e.fault? with
      | some f => ⟨"", reportLine f.report, .exit 1⟩
      | none => ⟨"", [], .failure (.load e)⟩

/-- Runs the program with the words of a command line. -/
def run (fn : Elementary) (s : Store) (words : List String) : CommandRun :=
  match Arguments.ofTexts words with
  | .ok a => runArguments fn s a
  | .error .help => ⟨usageHelp, [], .exit 0⟩
  | .error (.fault f) => ⟨"", usageError f, .exit 2⟩

end

end CommandLine

end DeskCalc
