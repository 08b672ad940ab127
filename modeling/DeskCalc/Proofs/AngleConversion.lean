import DeskCalc.Elementary.Platform
import DeskCalc.Proofs.Term

/-!
# Angles in degrees

Degrees are radians with a conversion: a calculation in degrees is the calculation in radians of the tokens with `rad`
before every function of an angle (`withConversions`).  The two runs of the stack machine have the same stack after each
token of the shorter list, or both stop with the same fault there (`evalStep_degrees`); the longer run is merely inside
a call in between.

So without functions of angles the angle mode has no influence (`evalPostfix_degrees`).
-/

namespace DeskCalc

/-- Whether the function reads its argument as an angle. -/
def Function.takesAngle : Function → Bool
  | sin | cos | tan | csc | sec | cot => true
  | _ => false

/-- Whether the token is a function of an angle. -/
def Token.takesAngle : Token → Bool
  | function f => f.takesAngle
  | _ => false

/-- The token after a conversion to radians, if it is a function of an angle. -/
def withConversion (t : Token) : List Token :=
  if t.takesAngle then [.function .rad, t] else [t]

/-- The tokens with a conversion to radians directly before every function of an angle. -/
def withConversions (ts : List Token) : List Token :=
  ts.flatMap withConversion

private theorem withConversions_cons (t : Token) (ts : List Token) :
    withConversions (t :: ts) = withConversion t ++ withConversions ts :=
  List.flatMap_cons

/-- The sine of a cosine has two conversions. -/
example : withConversions [.number Kernel.one, .function .cos, .function .sin] =
    [.number Kernel.one, .function .rad, .function .cos, .function .rad, .function .sin] :=
  rfl

private theorem withConversion_of_not_takesAngle {t : Token} (h : t.takesAngle = false) : withConversion t = [t] := by
  rw [withConversion, h]
  rfl

/-! ### Kernels -/

private theorem Kernel.onStack_after (convert : Double → Double) (k : Kernel) (h : k.arity = 1) (x : Double)
    (rest : List Double) : (k.after convert).onStack (x :: rest) = k.onStack (convert x :: rest) := by
  cases k with
  | unary f => rfl
  | binary f => cases h

namespace Function

private theorem mem_angular_iff (f : Function) : f ∈ angular ↔ f.takesAngle = true := by
  cases f <;> decide

private theorem arity_of_takesAngle {f : Function} (h : f.takesAngle = true) : f.arity = 1 := by
  cases f <;> first | rfl | cases h

variable {fn : Elementary} {f : Function}

private theorem kernelIn_radians (f : Function) : f.kernelIn fn .radians = f.kernel fn :=
  if_neg fun h => nomatch h.1

private theorem kernelIn_degrees (h : f.takesAngle = true) :
    f.kernelIn fn .degrees = (f.kernel fn).after Kernel.radians :=
  if_pos ⟨rfl, (mem_angular_iff f).2 h⟩

/-- The angle mode is only for the functions of angles. -/
private theorem kernelIn_of_not_takesAngle (h : f.takesAngle = false) (mode : AngleMode) :
    f.kernelIn fn mode = f.kernel fn := by
  refine if_neg fun hmode => ?_
  rw [(mem_angular_iff f).1 hmode.2] at h
  cases h

end Function

/-! ### One token -/

section Step

variable {fn : Elementary} {t : Token}

/-- A token that is no function of an angle does the same in both modes. -/
private theorem evalStep_of_not_takesAngle (h : t.takesAngle = false) (mode mode' : AngleMode) (stack : List Double) :
    evalStep fn mode stack t = evalStep fn mode' stack t := by
  cases t with
  | function f =>
    rw [evalStep, evalStep, f.kernelIn_of_not_takesAngle h, f.kernelIn_of_not_takesAngle h]
  | _ => rfl

/-- In radians a conversion and then the function of an angle do what the function does in degrees.  An empty stack stops
both, the longer run one token earlier. -/
private theorem foldlM_evalStep_conversion {f : Function} (h : f.takesAngle = true) (stack : List Double) :
    [.function .rad, .function f].foldlM (evalStep fn .radians) stack = evalStep fn .degrees stack (.function f) := by
  have harity : (f.kernel fn).arity = 1 := by
    rw [f.arity_kernel, Function.arity_of_takesAngle h]
  rw [evalStep, Function.kernelIn_degrees h]
  cases stack with
  | nil =>
    have hempty : ((f.kernel fn).after Kernel.radians).onStack [] = none := by
      cases f.kernel fn <;> rfl
    rw [hempty]
    rfl
  | cons x rest =>
    have hrad : evalStep fn .radians (x :: rest) (.function .rad) = .ok (Kernel.radians x :: rest) := rfl
    rw [List.foldlM_cons, hrad, ok_bind, List.foldlM_cons, evalStep, Function.kernelIn_radians,
      Kernel.onStack_after _ _ harity]
    exact bind_pure _

/-- One token in degrees is the token with its conversion in radians. -/
theorem evalStep_degrees (stack : List Double) (t : Token) :
    (withConversion t).foldlM (evalStep fn .radians) stack = evalStep fn .degrees stack t := by
  cases h : t.takesAngle with
  | false =>
    rw [withConversion_of_not_takesAngle h, List.foldlM_cons, evalStep_of_not_takesAngle h .radians .degrees]
    exact bind_pure _
  | true =>
    cases t with
    | function f =>
      rw [withConversion, h]
      exact foldlM_evalStep_conversion h stack
    | _ => cases h

end Step

/-! ### Runs -/

section Run

variable {fn : Elementary}

private theorem foldlM_evalStep_withConversions (stack : List Double) (ts : List Token) :
    (withConversions ts).foldlM (evalStep fn .radians) stack = ts.foldlM (evalStep fn .degrees) stack := by
  induction ts generalizing stack with
  | nil => rfl
  | cons t ts ih =>
    rw [withConversions_cons, List.foldlM_append, evalStep_degrees, List.foldlM_cons]
    cases evalStep fn .degrees stack t with
    | error f => rfl
    | ok next => exact ih next

private theorem withConversions_eq_self {ts : List Token} (h : ∀ t ∈ ts, t.takesAngle = false) :
    withConversions ts = ts := by
  induction ts with
  | nil => rfl
  | cons t ts ih =>
    rw [List.forall_mem_cons] at h
    rw [withConversions_cons, withConversion_of_not_takesAngle h.1, ih h.2]
    rfl

private theorem evalPostfix_withConversions (ts : List Token) :
    evalPostfix fn .radians (withConversions ts) = evalPostfix fn .degrees ts := by
  rw [evalPostfix, evalPostfix, foldlM_evalStep_withConversions]

/-- Evaluation in degrees has the outcome of evaluation in radians with a conversion before every function of an angle:
the same value or the same fault, whose report has the code `3200`.  Without functions of angles the angle mode does not
matter. -/
theorem evalPostfix_degrees (fn : Elementary) (ts : List Token) :
    evalPostfix fn .degrees ts = evalPostfix fn .radians (withConversions ts) ∧
      (∀ mode f, evalPostfix fn mode ts = .error f → f.kind = .parsing ∧ f.code = "3200") ∧
      ((∀ t ∈ ts, t.takesAngle = false) → ∀ mode mode', evalPostfix fn mode ts = evalPostfix fn mode' ts) := by
  refine ⟨(evalPostfix_withConversions ts).symm, fun mode f => report_of_evalPostfix, fun h => ?_⟩
  have hmodes : evalPostfix fn .radians ts = evalPostfix fn .degrees ts := by
    rw [← evalPostfix_withConversions ts, withConversions_eq_self h]
  intro mode mode'
  cases mode <;> cases mode' <;> first | rfl | exact hmodes | exact hmodes.symm

/-- The inverse and hyperbolic functions are no functions of angles. -/
theorem evalPostfix_modes_of_inverse :
    (∀ t ∈ [Token.number Kernel.one, .function .asin, .function .sinh, .function .acot], t.takesAngle = false) ∧
      evalPostfix .platform .degrees [.number Kernel.one, .function .asin, .function .sinh, .function .acot] =
        evalPostfix .platform .radians [.number Kernel.one, .function .asin, .function .sinh, .function .acot] := by
  have h : ∀ t ∈ [Token.number Kernel.one, .function .asin, .function .sinh, .function .acot],
      t.takesAngle = false := by
    decide
  exact ⟨h, (evalPostfix_degrees .platform _).2.2 h .degrees .radians⟩

end Run

end DeskCalc
