import DeskCalc.Postfix
import DeskCalc.Proofs.Trap

/-!
# Conversion with a stack of scopes

The conversion to postfix order keeps all it knows of an open parenthesis on one stack.  Here the parentheses wait as
mere tokens, and a second stack has a `Scope` for each of them: the function that it belongs to, whether anything
waited when it was opened, and its arguments so far.  Nothing but the run itself keeps the two stacks in step, and
their entries are taken off without asking whether there are any.

Both stacks are images of the one (`ScopedConversion.of`).  Reading a token commutes with taking the images
(`ScopedConversion.read_of`), so the entries are always there: no run over any list of tokens traps, and the result is
that of `toPostfix` (`ScopedConversion.toPostfix_eq`).
-/

namespace DeskCalc

/-- What is known of an open parenthesis. -/
structure Scope where
  function : Option Function
  nested : Bool
  arguments : Nat
  deriving DecidableEq, Repr

/-- The state of the conversion: the operators, functions and open parentheses that wait, topmost first; the scopes of
the open parentheses; the output, latest first; and the last token read. -/
structure ScopedConversion where
  operators : List Token
  scopes : List Scope
  output : List Token
  last : Option Token
  deriving DecidableEq, Repr

namespace ScopedConversion

open Conversion (argumentIsEmpty expectsOperand)

def start : ScopedConversion :=
  ⟨[], [], [], none⟩

/-- Sends everything above the topmost open parenthesis to the output; nothing if there is none. -/
def popUntilOpening (output : List Token) : List Token → Option (List Token × List Token)
  | [] => none
  | .opening :: below => some (.opening :: below, output)
  | t :: below => popUntilOpening (t :: output) below

/-- Sends the operators that precede `op` to the output and lets `op` wait. -/
def pushOperator (op : Operator) (output : List Token) : List Token → List Token × List Token
  | .operator u :: below =>
    if u.precedes op then pushOperator op (.operator u :: output) below
    else (.operator op :: .operator u :: below, output)
  | operators => (.operator op :: operators, output)

/-- The function on top of the stack. -/
def callee : List Token → Option Function
  | .function f :: _ => some f
  | _ => none

def readComma (s : ScopedConversion) : Except Halt ScopedConversion :=
  if argumentIsEmpty s.last then .error (.fault .emptyArgument)
  else
    match popUntilOpening s.output s.operators with
    | none => .error (.fault .unmatchedParenthesis)
    | some (operators, output) => do
      let (scope, outer) ← pop s.scopes
      if scope.function.isNone ∧ scope.nested = true then .error (.fault .strayComma)
      else return ⟨operators, { scope with arguments := scope.arguments + 1 } :: outer, output, some .comma⟩

def readClosing (s : ScopedConversion) : Except Halt ScopedConversion :=
  if s.last = some .comma then .error (.fault .emptyArgument)
  else
    match popUntilOpening s.output s.operators with
    | none => .error (.fault .unmatchedParenthesis)
    | some (operators, output) => do
      let (_, operators) ← pop operators
      let (scope, scopes) ← pop s.scopes
      if scope.function.isSome then
        let f ← part scope.function
        if scope.arguments < f.arity then .error (.fault (.tooFewArguments f scope.arguments))
        else
          let (t, operators) ← pop operators
          return ⟨operators, scopes, t :: output, some .closing⟩
      else return ⟨operators, scopes, output, some .closing⟩

def readOperator (s : ScopedConversion) (op : Operator) : Except Halt ScopedConversion :=
  let last := some (Token.operator op)
  if expectsOperand s.last then
    if op.symbol = '-' then
      let (operators, output) := pushOperator .negate s.output s.operators
      .ok ⟨operators, s.scopes, output, last⟩
    else if op.symbol = '+' then .ok ⟨s.operators, s.scopes, s.output, last⟩
    else .error (.fault .operandImbalance)
  else
    let (operators, output) := pushOperator op s.output s.operators
    .ok ⟨operators, s.scopes, output, last⟩

def read (s : ScopedConversion) (t : Token) : Except Halt ScopedConversion :=
  match t with
  | .number _ | .previous _ | .constant _ _ => .ok ⟨s.operators, s.scopes, t :: s.output, some t⟩
  | .function _ => .ok ⟨t :: s.operators, s.scopes, s.output, some t⟩
  | .opening =>
    .ok ⟨t :: s.operators, ⟨callee s.operators, !s.operators.isEmpty, 1⟩ :: s.scopes, s.output, some t⟩
  | .comma => s.readComma
  | .closing => s.readClosing
  | .operator op => s.readOperator op

/-- Sends everything that waits to the output. -/
def drain (output : List Token) : List Token → Except Halt (List Token)
  | [] => .ok output
  | .opening :: _ => .error (.fault .unmatchedParenthesis)
  | t :: below => drain (t :: output) below

/-- The tokens in postfix order. -/
def toPostfix (tokens : List Token) : Except Halt (List Token) := do
  let s ← tokens.foldlM read start
  let output ← drain s.output s.operators
  return output.reverse

/-! ### Both stacks as images of one -/

/-- What waits, as a token. -/
def word : Pending → Token
  | .operator op => .operator op
  | .function f => .function f
  | .group _ => .opening

/-- The scopes of the open parentheses that wait. -/
def scopesOf : List Pending → List Scope
  | [] => []
  | .group n :: below => ⟨callee (below.map word), !below.isEmpty, n⟩ :: scopesOf below
  | .operator _ :: below => scopesOf below
  | .function _ :: below => scopesOf below

def of (c : Conversion) : ScopedConversion :=
  ⟨c.stack.map word, scopesOf c.stack, c.output, c.last⟩

/-- The parenthesis that is found on the one stack is found on the first of the two. -/
private theorem popUntilOpening_map (output : List Token) (stack : List Pending) :
    popUntilOpening output (stack.map word) =
      (Conversion.unwind output stack).map fun r => (.opening :: r.2.1.map word, r.2.2) := by
  induction stack generalizing output with
  | nil => rfl
  | cons p below ih =>
    cases p with
    | operator op => exact ih _
    | function f => exact ih _
    | group n => rfl

/-- Its scope is on top of the second stack. -/
private theorem scopesOf_eq {output output' : List Token} {stack below : List Pending} {n : Nat}
    (h : Conversion.unwind output stack = some (n, below, output')) :
    scopesOf stack = ⟨callee (below.map word), !below.isEmpty, n⟩ :: scopesOf below := by
  induction stack generalizing output with
  | nil => cases h
  | cons p rest ih =>
    cases p with
    | operator op => exact ih h
    | function f => exact ih h
    | group m =>
      cases h
      rfl

/-- Operators that are pushed and sent out leave the scopes alone. -/
private theorem pushOperator_map (op : Operator) (output : List Token) (stack : List Pending) :
    pushOperator op output (stack.map word) =
        ((Conversion.pushOperator op output stack).1.map word, (Conversion.pushOperator op output stack).2) ∧
      scopesOf (Conversion.pushOperator op output stack).1 = scopesOf stack := by
  induction stack generalizing output with
  | nil => exact ⟨rfl, rfl⟩
  | cons p below ih =>
    cases p with
    | operator u =>
      rw [List.map_cons, word, pushOperator, Conversion.pushOperator]
      split
      · exact ih _
      · exact ⟨rfl, rfl⟩
    | function f => exact ⟨rfl, rfl⟩
    | group n => exact ⟨rfl, rfl⟩

variable (c : Conversion)

private theorem readComma_of : (of c).readComma = untrapped (c.readComma.map of) := by
  rw [readComma, Conversion.readComma]
  change (if argumentIsEmpty c.last then _ else _) = _
  split
  · rfl
  · have hpop : popUntilOpening (of c).output (of c).operators = _ := popUntilOpening_map c.output c.stack
    rw [hpop]
    cases hunwind : Conversion.unwind c.output c.stack with
    | none => rfl
    | some r =>
      obtain ⟨n, below, output⟩ := r
      have hscopes : (of c).scopes = _ := scopesOf_eq hunwind
      simp only [Option.map_some, hscopes, pop, ok_bind]
      cases below with
      | nil => rfl
      | cons p below => cases p <;> rfl

private theorem readClosing_of : (of c).readClosing = untrapped (c.readClosing.map of) := by
  rw [readClosing, Conversion.readClosing]
  change (if c.last = some .comma then _ else _) = _
  split
  · rfl
  · have hpop : popUntilOpening (of c).output (of c).operators = _ := popUntilOpening_map c.output c.stack
    rw [hpop]
    cases hunwind : Conversion.unwind c.output c.stack with
    | none => rfl
    | some r =>
      obtain ⟨n, below, output⟩ := r
      have hscopes : (of c).scopes = _ := scopesOf_eq hunwind
      simp only [Option.map_some, hscopes, pop, ok_bind]
      cases below with
      | nil => rfl
      | cons p below =>
        cases p with
        | function f =>
          change (if n < f.arity then _ else _) = untrapped ((if n < f.arity then _ else _ : Except Fault _).map of)
          split <;> rfl
        | operator op => rfl
        | group m => rfl

private theorem readOperator_of (op : Operator) : (of c).readOperator op = untrapped ((c.readOperator op).map of) := by
  have hpush : ∀ op, pushOperator op (of c).output (of c).operators = _ ∧ _ := fun op =>
    pushOperator_map op c.output c.stack
  rw [readOperator, Conversion.readOperator]
  change (if expectsOperand c.last then _ else _) = _
  split
  · split
    · rw [(hpush .negate).1]
      simp [of, (hpush .negate).2, Except.map]
    · split <;> rfl
  · rw [(hpush op).1]
    simp [of, (hpush op).2, Except.map]

/-- Reading a token commutes with taking the two stacks. -/
theorem read_of (t : Token) : (of c).read t = untrapped ((c.read t).map of) := by
  cases t with
  | comma => exact readComma_of c
  | closing => exact readClosing_of c
  | operator op => exact readOperator_of c op
  | opening =>
    obtain ⟨stack, output, last⟩ := c
    cases stack <;> rfl
  | _ => rfl

theorem foldlM_read_of (ts : List Token) :
    ts.foldlM read (of c) = untrapped ((ts.foldlM Conversion.read c).map of) := by
  induction ts generalizing c with
  | nil => rfl
  | cons t ts ih =>
    rw [List.foldlM_cons, List.foldlM_cons, read_of]
    cases c.read t with
    | error e => rfl
    | ok next => exact ih next

private theorem drain_map (output : List Token) (stack : List Pending) :
    drain output (stack.map word) = untrapped (Conversion.drain output stack) := by
  induction stack generalizing output with
  | nil => rfl
  | cons p below ih =>
    cases p with
    | operator op => exact ih _
    | function f => exact ih _
    | group n => rfl

/-- No run traps, over any tokens, and the result is the same. -/
theorem toPostfix_eq (ts : List Token) : toPostfix ts = untrapped (DeskCalc.toPostfix ts) := by
  have hrun : ts.foldlM read start = _ := foldlM_read_of .start ts
  rw [toPostfix, DeskCalc.toPostfix, hrun]
  cases ts.foldlM Conversion.read .start with
  | error e => rfl
  | ok c =>
    change drain c.output (c.stack.map word) >>= _ = untrapped ((Conversion.drain c.output c.stack).map List.reverse)
    rw [drain_map]
    cases Conversion.drain c.output c.stack <;> rfl

end ScopedConversion

end DeskCalc
