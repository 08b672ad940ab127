import DeskCalc.Host
import DeskCalc.Text.DecimalDigit
import DeskCalc.Text.Quoted

/-!
# The words of a command line

A word is an operand, an option or neither.  An option is written with one letter, and then further letters or its
value may follow in the same word (`-rf2`), or with its name or the beginning of it and perhaps a value (`--fix=2`).
A negative number, a lone minus sign and a word with a space are operands.  After the word `--` there are only
operands.

A word of letters is taken apart by the rules of the host (`Host.optionRules`): an option without a value is a step of
its own, an option with a value takes the rest of the word, or has to wait for the next word if nothing is left.  By the
earlier rules (`earlierSteps`) one equals sign after the first letter is passed over (`-f=2`, `-r=f2`), a later one is
like any other character, and a letter that is no option is an unwanted value of the option before it (`-rx`).  By the
later rules (`laterSteps`) an equals sign after any letter says that a value follows (`-rf=2`), an option that takes
none refuses it (`-r=f2`), and letters that are no option are refused like an unknown word, at the end.
-/

namespace DeskCalc

inductive CommandOption where
  | help
  | fix
  | base
  | radian
  | debug
  deriving DecidableEq, Repr

namespace CommandOption

def all : List CommandOption :=
  [help, fix, base, radian, debug]

def name : CommandOption → String
  | help => "help"
  | fix => "fix"
  | base => "base"
  | radian => "radian"
  | debug => "debug"

/-- The letter for an option. -/
def letter? : CommandOption → Option Char
  | help => some 'h'
  | fix => some 'f'
  | base => some 'b'
  | radian => some 'r'
  | debug => none

/-- Whether the option takes a value. -/
def takesValue : CommandOption → Bool
  | fix | base => true
  | _ => false

def ofLetter? (c : Char) : Option CommandOption :=
  all.find? fun o => o.letter? == some c

/-- The options whose name begins with the given text. -/
def ofBeginning (text : List Char) : List CommandOption :=
  all.filter fun o => text.isPrefixOf o.name.toList

/-- The option in messages, with its letter and its name. -/
def label (o : CommandOption) : String :=
  match o.letter? with
  | some c => "-" ++ String.singleton c ++ "/" ++ "--" ++ o.name
  | none => "--" ++ o.name

end CommandOption

/-- What is wrong with a command line. -/
inductive UsageFault where
  | ambiguous (word : String) (options : List CommandOption)
  | missingValue (option : CommandOption)
  | unwantedValue (option : CommandOption) (text : List Char)
  | notAnInteger (option : CommandOption) (text : List Char)
  | unrecognized (words : List String)
  deriving DecidableEq, Repr

def UsageFault.message : UsageFault → String
  | ambiguous word options =>
    let names := ", ".intercalate (options.map fun o => "--" ++ o.name)
    s!"ambiguous option: {word} could match {names}"
  | missingValue o => s!"argument {o.label}: expected one argument"
  | unwantedValue o text => s!"argument {o.label}: ignored explicit argument " ++ String.ofList (quoted text)
  | notAnInteger o text => s!"argument {o.label}: invalid int value: " ++ String.ofList (quoted text)
  | unrecognized words => "unrecognized arguments: " ++ " ".intercalate words

/-- A word that names an option, by its letter with the rest of the word, or by its name with a value. -/
inductive OptionWord where
  | letters (option : CommandOption) (rest : List Char)
  | named (option : CommandOption) (value : Option (List Char))
  deriving DecidableEq, Repr

inductive CommandWord where
  | operand (text : String)
  | separator
  | option (word : OptionWord)
  | unknown (text : String)
  deriving DecidableEq, Repr

namespace CommandWord

/-- Whether the text is a negative number in decimal notation; a line break may follow. -/
def isNegativeNumber (s : List Char) : Bool :=
  let isDigit (c : Char) := (decimalDigit? c).isSome
  let body := if s.getLast? = some '\n' then s.dropLast else s
  body.head? == some '-' &&
    match body.tail.dropWhile isDigit with
    | [] => !body.tail.isEmpty
    | '.' :: fraction => !fraction.isEmpty && fraction.all isDigit
    | _ => false

/-- A word with a minus sign that names no option. -/
def withoutOption (word : String) : CommandWord :=
  if isNegativeNumber word.toList || word.toList.contains ' ' then operand word else unknown word

/-- What a word stands for. -/
def ofText (word : String) : Except UsageFault CommandWord :=
  match word.toList with
  | '-' :: '-' :: rest =>
    let value := (rest.dropWhile (· != '=')).tail?
    match CommandOption.ofBeginning (rest.takeWhile (· != '=')) with
    | [] => .ok (withoutOption word)
    | [o] => .ok (option (.named o value))
    | options => .error (.ambiguous word options)
  | '-' :: c :: rest =>
    match CommandOption.ofLetter? c with
    | some o => .ok (option (.letters o rest))
    | none => .ok (withoutOption word)
  | _ => .ok (operand word)

/-- What the words of a command line stand for. -/
def ofTexts : List String → Except UsageFault (List CommandWord)
  | [] => .ok []
  | word :: rest =>
    if word = "--" then .ok (separator :: rest.map operand)
    else do
      let w ← ofText word
      let ws ← ofTexts rest
      .ok (w :: ws)

end CommandWord

/-! ### Steps -/

/-- What an option word asks for, one thing after another; `unknown` is what is left of a word and names no option. -/
inductive CommandStep where
  | option (option : CommandOption)
  | value (option : CommandOption) (text : List Char)
  | awaited (option : CommandOption)
  | unknown (text : List Char)
  deriving DecidableEq, Repr

namespace CommandStep

/-- The step for an option at the end of its word. -/
def alone (o : CommandOption) : CommandStep :=
  if o.takesValue then awaited o else option o

/-- The steps of an option with a value in the same word. -/
def assigned (o : CommandOption) (text : List Char) : Except UsageFault (List CommandStep) :=
  if o.takesValue then .ok [value o text] else .error (.unwantedValue o text)

/-- The steps of an option given by its letter, with the rest of the word after an equals sign if there is one. -/
def earlierSteps (o : CommandOption) : List Char → Except UsageFault (List CommandStep)
  | [] => .ok [alone o]
  | c :: rest =>
    if o.takesValue then .ok [value o (c :: rest)]
    else
      match CommandOption.ofLetter? c with
      | some p => (earlierSteps p rest).map (option o :: ·)
      | none => .error (.unwantedValue o (c :: rest))

/-- The steps of an option given by its letter, with the rest of the word.  A minus sign is no letter of a further
option. -/
def laterSteps (o : CommandOption) : List Char → Except UsageFault (List CommandStep)
  | [] => .ok [alone o]
  | '=' :: rest => assigned o rest
  | c :: rest =>
    if o.takesValue || c == '-' then assigned o (c :: rest)
    else
      match CommandOption.ofLetter? c with
      | some p => (laterSteps p rest).map (option o :: ·)
      | none => .ok [option o, unknown ('-' :: c :: rest)]

/-- The option that still waits for its value. -/
def awaited? (steps : List CommandStep) : Option CommandOption :=
  match steps.getLast? with
  | some (awaited o) => some o
  | _ => none

end CommandStep

/-- The steps of a word of letters. -/
def CommandStep.ofLetters [Host] (o : CommandOption) (rest : List Char) : Except UsageFault (List CommandStep) :=
  match Host.optionRules with
  | .earlier =>
    match rest with
    | ['='] => assigned o []
    | '=' :: text => earlierSteps o text
    | text => earlierSteps o text
  | .later => laterSteps o rest

/-- The steps of an option word. -/
def OptionWord.steps [Host] : OptionWord → Except UsageFault (List CommandStep)
  | letters o rest => CommandStep.ofLetters o rest
  | named o (some text) => CommandStep.assigned o text
  | named o none => .ok [CommandStep.alone o]

end DeskCalc
