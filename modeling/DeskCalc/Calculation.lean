import DeskCalc.Decimal.Places
import DeskCalc.Help
import DeskCalc.Parentheses
import DeskCalc.Postfix
import DeskCalc.StackMachine
import DeskCalc.Token.Lexing

/-!
# Calculations

A problem is cleaned of blanks, its open parentheses are closed, it is cut into tokens, brought into postfix order
and evaluated, and the value is rounded to a number of decimal places.  The first fault ends the calculation
(`evaluate`); its report names the problem as it was given.

`Progress` keeps what each stage produced, up to the first fault, for those who want to watch.
-/

namespace DeskCalc

/-- The value with at most `places` decimal places; infinities and NaN are left as they are. -/
def roundToPlaces (x : Double) (places : Int) : Except SettingFault Double :=
  if places < 0 then .error (.ofShown ((Json.integerForm places).map Text.ofChars))
  else .ok (x.roundTo places.toNat)

/-- The value of a text without blanks, before rounding. -/
def rawValue (fn : Elementary) (mode : AngleMode) (previous : PreviousAnswer) (cleaned : List Char) :
    Except Fault Double := do
  let balanced ← closeParentheses cleaned
  let tokens ← lex previous balanced
  let postfixed ← toPostfix tokens
  evalPostfix fn mode postfixed

/-- The value of a text without blanks.  No text is zero; the word `help` calls for help. -/
def cleanedValue (fn : Elementary) (mode : AngleMode) (places : Int) (previous : PreviousAnswer)
    (cleaned : List Char) : Except Fault Double :=
  if cleaned = ['h', 'e', 'l', 'p'] then .error (.help helpText)
  else if cleaned.isEmpty then .ok (Double.zero false)
  else do
    let x ← rawValue fn mode previous cleaned
    (roundToPlaces x places).mapError .setting

/-- The value of a problem. -/
def evaluate (fn : Elementary) (mode : AngleMode) (places : Int) (previous : PreviousAnswer) (problem : String) :
    Except Fault Double :=
  cleanedValue fn mode places previous (removeBlanks problem.toList)

/-- What the stages of a calculation produced.  Only stages before the fault, if there is one, have a result. -/
structure Progress where
  cleaned : List Char
  balanced : Option (List Char)
  tokens : Option (List Token)
  postfixed : Option (List Token)
  raw : Option Double
  fault : Option Fault

/-- The stages of a calculation one by one, without rounding and without special words. -/
def Progress.of (fn : Elementary) (mode : AngleMode) (previous : PreviousAnswer) (problem : String) : Progress :=
  let cleaned := removeBlanks problem.toList
  match closeParentheses cleaned with
  | .error f => ⟨cleaned, none, none, none, none, some f⟩
  | .ok balanced =>
    match lex previous balanced with
    | .error f => ⟨cleaned, some balanced, none, none, none, some f⟩
    | .ok tokens =>
      match toPostfix tokens with
      | .error f => ⟨cleaned, some balanced, some tokens, none, none, some f⟩
      | .ok postfixed =>
        match evalPostfix fn mode postfixed with
        | .error f => ⟨cleaned, some balanced, some tokens, some postfixed, none, some f⟩
        | .ok x => ⟨cleaned, some balanced, some tokens, some postfixed, some x, none⟩

end DeskCalc
