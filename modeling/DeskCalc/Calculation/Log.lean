import DeskCalc.Calculation
import DeskCalc.Log

/-!
# The log of a calculation

What each stage of a calculation tells: one entry for every stage that was completed, and one for the rounded value.
Parentheses are mentioned only if some had to be closed, and the special words leave no entries.
-/

namespace DeskCalc

namespace Progress

/-- The entry about parentheses that were closed. -/
def closingLog (p : Progress) (balanced : List Char) : List LogEntry :=
  let depth := balanced.length - p.cleaned.length
  let text := String.ofList (quoted p.cleaned)
  if depth = 0 then [] else [⟨.debug, .parentheses, s!"Closing {depth} open parenthes(es) in {text}"⟩]

def lexingLog (balanced : List Char) (tokens : List Token) : List LogEntry :=
  let text := String.ofList (quoted balanced)
  [⟨.debug, .lexing, s!"Lexed {text} into {Token.listText tokens}"⟩]

def conversionLog (postfixed : List Token) : List LogEntry :=
  [⟨.debug, .conversion, s!"Postfix: {Token.listText postfixed}"⟩]

def evaluationLog (postfixed : List Token) (raw : Double) : List LogEntry :=
  [⟨.debug, .stackMachine, s!"Evaluated {Token.listText postfixed} to {raw.toText}"⟩]

/-- The entry about the rounded value of a problem. -/
def resultLog (problem : String) (places : Int) (raw : Double) : List LogEntry :=
  match roundToPlaces raw places with
  | .ok x => [⟨.debug, .calculation, s!"{quotedText problem} = {x.toText} (raw {raw.toText})"⟩]
  | .error _ => []

/-- The entries about the stages and the value. -/
def log (p : Progress) (problem : String) (places : Int) : List LogEntry :=
  let balanced := p.balanced.getD []
  let tokens := p.tokens.getD []
  let postfixed := p.postfixed.getD []
  let raw := p.raw.getD .nan
  (if p.balanced.isSome then p.closingLog balanced else []) ++
    (if p.tokens.isSome then lexingLog balanced tokens else []) ++
    (if p.postfixed.isSome then conversionLog postfixed else []) ++
    if p.raw.isSome then evaluationLog postfixed raw ++ resultLog problem places raw else []

end Progress

/-- The log of a calculation. -/
def calculationLog (fn : Elementary) (mode : AngleMode) (places : Int) (previous : PreviousAnswer)
    (problem : String) : List LogEntry :=
  let p := Progress.of fn mode previous problem
  if p.cleaned = ['h', 'e', 'l', 'p'] ∨ p.cleaned = [] then [] else p.log problem places

end DeskCalc
