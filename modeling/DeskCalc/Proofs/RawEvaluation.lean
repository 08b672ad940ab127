import DeskCalc.Calculation
import DeskCalc.Proofs.RawKernel
import DeskCalc.Proofs.RawLexing
import DeskCalc.Proofs.ScopedConversion

/-!
# Calculations that could trap

The stack machine takes as many operands off the stack as an operator or function wants and calls its raw kernel with
them, that of a function by its name; and a rounded number has to have a double.  With lexing by places and two stacks
for the conversion this is a calculation in which every partial operation could trap.  It never does: it is the
calculation itself (`RawEvaluation.cleanedValue_eq`).
-/

namespace DeskCalc

namespace RawEvaluation

variable (fn : Elementary) (mode : AngleMode)

/-- The last `count` numbers of the stack, in the order in which they were pushed, and the stack without them. -/
def popOperands (stack : List Double) (count : Nat) : Except Halt (List Double × List Double) :=
  if stack.length < count then .error (.fault .operandImbalance)
  else .ok ((stack.take count).reverse, stack.drop count)

/-- The function with the name, of its arguments in the angle mode. -/
def applyNamed (name : String) (args : List Double) : Except Halt Double := do
  let f ← entryOf functionTable name
  if mode = .degrees ∧ name ∈ Function.angular.map Function.name then
    let x ← entry args 0
    (f.raw fn).call [Kernel.radians x]
  else (f.raw fn).call args

/-- One token on the stack, whose top comes first. -/
def step (stack : List Double) (t : Token) : Except Halt (List Double) :=
  match t with
  | .number _ | .previous _ | .constant _ _ => do
    let x ← part t.value?
    return x :: stack
  | .operator op => do
    let (args, rest) ← popOperands stack op.arity
    let x ← (op.raw fn).call args
    return x :: rest
  | .function f => do
    let (args, rest) ← popOperands stack f.arity
    let x ← applyNamed fn mode f.name args
    return x :: rest
  | .opening | .closing | .comma => .error (.fault (.strayToken t))

/-- The value of tokens in postfix order. -/
def value (tokens : List Token) : Except Halt Double := do
  let stack ← tokens.foldlM (step fn mode) []
  if stack.length = 1 then entry stack 0 else .error (.fault .operandImbalance)

/-- A number with at most `places` decimal places. -/
def rounded (x : Double) (places : Int) : Except Halt Double :=
  if places < 0 then .error (.fault (.setting (.ofShown ((Json.integerForm places).map Text.ofChars))))
  else if x.isFinite then
    if (x.roundTo places.toNat).isFinite then .ok (x.roundTo places.toNat) else .error (.trap .unrepresentable)
  else .ok x

/-- The value of a text without blanks. -/
def cleanedValue (places : Int) (answer : Option Double) (cleaned : List Char) : Except Halt Double :=
  if cleaned = ['h', 'e', 'l', 'p'] then .error (.fault (.help helpText))
  else if cleaned.isEmpty then .ok (Double.zero false)
  else do
    let balanced ← untrapped (closeParentheses cleaned)
    let tokens ← RawLexing.tokens answer balanced
    let postfixed ← ScopedConversion.toPostfix tokens
    let x ← value fn mode postfixed
    rounded x places

/-! ### No calculation traps -/

variable {fn}

/-- A kernel on a stack takes its arguments off and pushes its result. -/
private theorem onStack_eq (k : Kernel) (stack : List Double) :
    k.onStack stack = if stack.length < k.arity then none
      else some (k.apply (stack.take k.arity).reverse :: stack.drop k.arity) := by
  cases k with
  | unary f => cases stack <;> simp [Kernel.onStack, Kernel.arity, Kernel.apply]
  | binary f =>
    rcases stack with _ | ⟨x, _ | ⟨y, rest⟩⟩
    · rfl
    · rfl
    · simp [Kernel.onStack, Kernel.arity, Kernel.apply]

/-- A call that has the answer of a kernel for as many arguments as it takes is a step of the stack machine. -/
private theorem popOperands_bind (k : Kernel) (call : List Double → Except Halt Double)
    (hcall : ∀ args : List Double, args.length = k.arity → call args = .ok (k.apply args)) (stack : List Double) :
    (do
      let (args, rest) ← popOperands stack k.arity
      let x ← call args
      return x :: rest) = untrapped ((k.onStack stack).elim (.error .operandImbalance) .ok) := by
  rw [popOperands, onStack_eq]
  split
  · rfl
  · rename_i h
    have hlength : (stack.take k.arity).reverse.length = k.arity := by
      rw [List.length_reverse, List.length_take_of_le (Nat.not_lt.1 h)]
    rw [ok_bind]
    change call (stack.take k.arity).reverse >>= _ = _
    rw [hcall _ hlength]
    rfl

private theorem applyNamed_eq (h : fn.Documented) (f : Function) {args : List Double}
    (hlength : args.length = f.arity) : applyNamed fn mode f.name args = .ok ((f.kernelIn fn mode).apply args) := by
  have hlookup : entryOf functionTable f.name = .ok f :=
    entryOf_of_lookup ((lookup_functionTable f.name).trans f.ofName?_name)
  have hcall : ∀ {args : List Double}, args.length = f.arity →
      (f.raw fn).call args = .ok ((f.kernel fn).apply args) := fun hargs =>
    (f.computes h).call_eq (hargs.trans (f.arity_kernel fn).symm)
  have hangular : f.name ∈ Function.angular.map Function.name ↔ f ∈ Function.angular := by
    cases f <;> decide
  rw [applyNamed, hlookup, ok_bind, Function.kernelIn]
  simp only [hangular]
  split
  · rename_i hdegrees
    -- the functions of angles have one argument
    have hone : f.arity = 1 := by
      have hall : ∀ f ∈ Function.angular, f.arity = 1 := by decide
      exact hall f hdegrees.2
    match args, hlength.trans hone with
    | [x], _ =>
      have hargs : [Kernel.radians x].length = f.arity := hone.symm
      change (f.raw fn).call [Kernel.radians x] = _
      rw [hcall hargs]
      have hunary := (f.arity_kernel fn).trans hone
      cases hk : f.kernel fn with
      | unary g => rfl
      | binary g =>
        rw [hk] at hunary
        cases hunary
  · exact hcall hlength

theorem step_eq (h : fn.Documented) (stack : List Double) (t : Token) :
    step fn mode stack t = untrapped (evalStep fn mode stack t) := by
  cases t with
  | operator op =>
    have hstep := popOperands_bind (op.kernel fn) (op.raw fn).call (fun _ => (op.computes fn).call_eq) stack
    rwa [op.arity_kernel] at hstep
  | function f =>
    have hstep := popOperands_bind (f.kernelIn fn mode) (applyNamed fn mode f.name)
      (fun _ hlength => applyNamed_eq mode h f (hlength.trans (f.arity_kernelIn fn mode))) stack
    rwa [f.arity_kernelIn] at hstep
  | _ => rfl

private theorem foldlM_step (h : fn.Documented) (ts : List Token) (stack : List Double) :
    ts.foldlM (step fn mode) stack = untrapped (ts.foldlM (evalStep fn mode) stack) := by
  induction ts generalizing stack with
  | nil => rfl
  | cons t ts ih =>
    rw [List.foldlM_cons, List.foldlM_cons, untrapped_bind, step_eq mode h]
    exact bind_congr fun next => ih next

theorem value_eq (h : fn.Documented) (ts : List Token) : value fn mode ts = untrapped (evalPostfix fn mode ts) := by
  rw [value, foldlM_step mode h, evalPostfix, untrapped_bind]
  refine bind_congr fun stack => ?_
  match stack with
  | [] => rfl
  | [x] => rfl
  | _ :: _ :: _ => rfl

/-- Rounding a finite number to decimal places leaves it finite. -/
private theorem rounded_eq (x : Double) (places : Int) :
    rounded x places = untrapped ((roundToPlaces x places).mapError .setting) := by
  rw [rounded, roundToPlaces]
  split
  · rfl
  · cases x with
    | finite s a =>
      obtain ⟨b, hb, -⟩ := Double.exists_roundTo places.toNat s a
      rw [hb]
      rfl
    | _ => rfl

/-- The calculation meets no trap in any of its stages. -/
theorem cleanedValue_eq (h : fn.Documented) (places : Int) (answer : Option Double) (cleaned : List Char) :
    cleanedValue fn mode places answer cleaned =
      untrapped (DeskCalc.cleanedValue fn mode places (.ofOption answer) cleaned) := by
  rw [cleanedValue, DeskCalc.cleanedValue]
  split
  · rfl
  · split
    · rfl
    · rw [rawValue]
      simp only [untrapped_bind, bind_assoc, RawLexing.tokens_eq, ScopedConversion.toPostfix_eq, value_eq mode h,
        rounded_eq]

end RawEvaluation

end DeskCalc
