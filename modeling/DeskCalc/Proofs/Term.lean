import Mathlib.Data.List.Induction
import Mathlib.Data.List.OfFn
import DeskCalc.Proofs.ConversionFault
import DeskCalc.Proofs.Expression

/-!
# Terms and their postfix order

A term is an operand, or an operator or function with as many terms as it takes.  The stack machine gives a value to
exactly those lists of tokens that are the postorder of a term, and the value is that of the term, which is determined
by the list.  Every other list has one fault, whose report has the code `3200` (`evalPostfix_eq_ok_iff_postorder`).

What the machine does to numbers can be done to terms: `Term.Step` puts one more token on a stack of terms.  A stack of
terms is known from the tokens that were put on it (`Term.eq_of_backward_eq`), and its values are what the machine has
on its stack (`Term.foldlM_evalStep_iff`).
-/

namespace DeskCalc

/-- What terms are made of: an operator or a function. -/
inductive Symbol where
  | operator (op : Operator)
  | function (f : Function)
  deriving DecidableEq, Repr

namespace Symbol

def arity : Symbol → Nat
  | operator op => op.arity
  | function f => f.arity

def token : Symbol → Token
  | operator op => .operator op
  | function f => .function f

def kernelIn (fn : Elementary) (mode : AngleMode) : Symbol → Kernel
  | operator op => op.kernel fn
  | function f => f.kernelIn fn mode

theorem arity_kernelIn (fn : Elementary) (mode : AngleMode) (s : Symbol) : (s.kernelIn fn mode).arity = s.arity := by
  cases s with
  | operator op => exact op.arity_kernel fn
  | function f => exact f.arity_kernelIn fn mode

private theorem token_inj {s s' : Symbol} (h : s.token = s'.token) : s = s' := by
  cases s <;> cases s' <;> cases h <;> rfl

private theorem value?_token (s : Symbol) : s.token.value? = none := by
  cases s <;> rfl

end Symbol

/-- An operand, or an operator or function with its arguments. -/
inductive Term where
  | operand (t : Token) (value : t.value?.isSome = true)
  | apply (s : Symbol) (args : Fin s.arity → Term)

namespace Term

/-- The operands and symbols of the term, each after its arguments. -/
def postorder : Term → List Token
  | operand t _ => [t]
  | apply s args => (List.ofFn fun i => (args i).postorder).flatten ++ [s.token]

/-- The value of the term; the argument that comes first is the first one of the kernel. -/
def value (fn : Elementary) (mode : AngleMode) : Term → Double
  | operand t h => t.value?.get h
  | apply s args => (s.kernelIn fn mode).apply (List.ofFn fun i => (args i).value fn mode)

/-! ### Stacks of terms -/

/-- One more token on a stack of terms, whose top comes first: an operand is put on it, a symbol takes its arguments from
it, the last one first. -/
inductive Step : List Term → Token → List Term → Prop where
  | operand {t : Token} (value : t.value?.isSome = true) (stack : List Term) : Step stack t (operand t value :: stack)
  | apply (s : Symbol) (args : Fin s.arity → Term) (stack : List Term) :
      Step ((List.ofFn args).reverse ++ stack) s.token (apply s args :: stack)

/-- The tokens of a stack of terms, the last one first. -/
def backward (stack : List Term) : List Token :=
  stack.flatMap fun e => e.postorder.reverse

private theorem backward_append (stack stack' : List Term) :
    backward (stack ++ stack') = backward stack ++ backward stack' :=
  List.flatMap_append

private theorem backward_reverse (es : List Term) : backward es.reverse = (es.map postorder).flatten.reverse := by
  induction es with
  | nil => rfl
  | cons e es ih =>
    rw [List.reverse_cons, backward_append, ih]
    simp [backward]

private theorem Step.backward_eq {stack stack' : List Term} {t : Token} (h : Step stack t stack') :
    backward stack' = t :: backward stack := by
  cases h with
  | operand hvalue stack => rfl
  | apply s args stack =>
    have hargs : (List.ofFn args).map postorder = List.ofFn fun i => (args i).postorder := List.map_ofFn
    rw [backward_append, backward_reverse, hargs]
    simp [backward, postorder]

/-- What is on top of a stack was put there by its last token. -/
private theorem exists_step_of_backward {stack : List Term} {t : Token} {ts : List Token}
    (h : backward stack = t :: ts) : ∃ before, Step before t stack ∧ backward before = ts := by
  have htop : ∀ e stack, ∃ t before, Step before t (e :: stack) := by
    intro e stack
    cases e with
    | operand t hvalue => exact ⟨t, stack, .operand hvalue stack⟩
    | apply s args => exact ⟨s.token, _, .apply s args stack⟩
  cases stack with
  | nil => cases h
  | cons e stack =>
    obtain ⟨t', before, hstep⟩ := htop e stack
    rw [hstep.backward_eq] at h
    cases h
    exact ⟨before, hstep, rfl⟩

private theorem eq_nil_of_backward {stack : List Term} (h : backward stack = []) : stack = [] := by
  cases stack with
  | nil => rfl
  | cons e stack =>
    have hne : e.postorder ≠ [] := by
      cases e <;> simp [postorder]
    simp [backward, hne] at h

theorem Step.unique {stack after after' : List Term} {t : Token} (h : Step stack t after) (h' : Step stack t after') :
    after = after' := by
  cases h with
  | operand hvalue stack =>
    cases h' with
    | operand hvalue' stack => rfl
    | apply s args stack =>
      rw [s.value?_token] at hvalue
      cases hvalue
  | apply s args stack =>
    generalize hbefore : (List.ofFn args).reverse ++ stack = before at h'
    generalize htoken : s.token = t at h'
    cases h' with
    | operand hvalue stack' =>
      rw [← htoken, s.value?_token] at hvalue
      cases hvalue
    | apply s' args' stack' =>
      obtain rfl := Symbol.token_inj htoken
      -- both symbols take the same number of terms off one stack
      obtain ⟨hargs, rfl⟩ := List.append_inj hbefore (by simp)
      rw [List.ofFn_injective (List.reverse_inj.1 hargs)]

/-- A stack of terms is determined by its tokens. -/
theorem eq_of_backward_eq {stack stack' : List Term} (h : backward stack = backward stack') : stack = stack' := by
  generalize hts : backward stack = ts at h
  induction ts generalizing stack stack' with
  | nil => rw [eq_nil_of_backward hts, eq_nil_of_backward h.symm]
  | cons t ts ih =>
    obtain ⟨before, hstep, hbefore⟩ := exists_step_of_backward hts
    obtain ⟨before', hstep', hbefore'⟩ := exists_step_of_backward h.symm
    obtain rfl := ih hbefore hbefore'.symm
    exact hstep.unique hstep'

private theorem postorder_injective {e e' : Term} (h : e.postorder = e'.postorder) : e = e' := by
  have hstack : [e] = [e'] := eq_of_backward_eq (by simp [backward, h])
  exact List.singleton_inj.1 hstack

/-! ### Terms and the stack machine -/

variable {fn : Elementary} {mode : AngleMode}

/-- The first entries of a stack are the arguments of a function, the last one on top. -/
private theorem exists_args {α : Type} {n : Nat} {stack : List α} (h : n ≤ stack.length) :
    ∃ (args : Fin n → α) (rest : List α), stack = (List.ofFn args).reverse ++ rest := by
  have hlength : (stack.take n).reverse.length = n := by simp [h]
  generalize hes : (stack.take n).reverse = es at hlength
  subst hlength
  refine ⟨es.get, stack.drop es.length, ?_⟩
  rw [List.ofFn_get, ← hes, List.reverse_reverse, hes, List.take_append_drop]

private theorem evalStep_symbol {s : Symbol} {xs : List Double} (h : xs.length = s.arity) (stack : List Double) :
    evalStep fn mode (xs.reverse ++ stack) s.token = .ok ((s.kernelIn fn mode).apply xs :: stack) := by
  cases s with
  | operator op => exact evalStep_operator h stack
  | function f => exact evalStep_function h stack

private theorem arity_le_of_evalStep {s : Symbol} {stack stack' : List Double}
    (h : evalStep fn mode stack s.token = .ok stack') : s.arity ≤ stack.length := by
  have hsome : ((s.kernelIn fn mode).onStack stack).isSome := by
    have hok : ((s.kernelIn fn mode).onStack stack).elim (.error .operandImbalance) .ok = (.ok stack' : Except Fault _) := by
      cases s <;> exact h
    cases hstack : (s.kernelIn fn mode).onStack stack with
    | none =>
      rw [hstack] at hok
      cases hok
    | some result => rfl
  rw [← s.arity_kernelIn fn mode]
  exact (Kernel.onStack_isSome_iff _ _).1 hsome

/-- The machine does to the values of terms what a token does to the terms. -/
private theorem Step.evalStep_eq {stack stack' : List Term} {t : Token} (h : Step stack t stack') :
    evalStep fn mode (stack.map (value fn mode)) t = .ok (stack'.map (value fn mode)) := by
  cases h with
  | operand hvalue stack => cases t <;> first | rfl | cases hvalue
  | apply s args stack =>
    have hargs : (List.ofFn args).map (value fn mode) = List.ofFn fun i => (args i).value fn mode := List.map_ofFn
    rw [List.map_append, List.map_reverse, hargs, evalStep_symbol List.length_ofFn]
    rfl

private theorem exists_step_of_evalStep {stack : List Term} {t : Token} {xs : List Double}
    (h : evalStep fn mode (stack.map (value fn mode)) t = .ok xs) :
    ∃ stack', Step stack t stack' ∧ stack'.map (value fn mode) = xs := by
  have hstep : ∃ stack', Step stack t stack' := by
    have hsymbol : ∀ s : Symbol, s.token = t → ∃ stack', Step stack t stack' := by
      rintro s rfl
      have hle := arity_le_of_evalStep h
      rw [List.length_map] at hle
      obtain ⟨args, rest, rfl⟩ := exists_args hle
      exact ⟨_, .apply s args rest⟩
    cases t with
    | number x => exact ⟨_, .operand rfl stack⟩
    | previous x => exact ⟨_, .operand rfl stack⟩
    | constant n x => exact ⟨_, .operand rfl stack⟩
    | operator op => exact hsymbol (.operator op) rfl
    | function f => exact hsymbol (.function f) rfl
    | _ => cases h
  obtain ⟨stack', hstep⟩ := hstep
  rw [hstep.evalStep_eq] at h
  exact ⟨stack', hstep, Except.ok.inj h⟩

/-- What is on the stack of the machine are the values of the terms that were read. -/
theorem foldlM_evalStep_iff {ts : List Token} {xs : List Double} :
    ts.foldlM (evalStep fn mode) [] = .ok xs ↔
      ∃ stack, backward stack = ts.reverse ∧ stack.map (value fn mode) = xs := by
  induction ts using List.reverseRecOn generalizing xs with
  | nil =>
    constructor
    · rintro ⟨⟩
      exact ⟨[], rfl, rfl⟩
    · rintro ⟨stack, hstack, rfl⟩
      rw [eq_nil_of_backward hstack]
      rfl
  | append_singleton ts t ih =>
    rw [List.reverse_append]
    constructor
    · intro h
      obtain ⟨mid, hmid, hlast⟩ := exists_of_foldlM_append h
      obtain ⟨stack, hstack, rfl⟩ := ih.1 hmid
      obtain ⟨next, hnext, hdone⟩ := exists_of_foldlM_cons hlast
      cases hdone
      obtain ⟨stack', hstep, hvalues⟩ := exists_step_of_evalStep hnext
      exact ⟨stack', by rw [hstep.backward_eq, hstack]; rfl, hvalues⟩
    · rintro ⟨stack', hstack', rfl⟩
      obtain ⟨stack, hstep, hstack⟩ := exists_step_of_backward hstack'
      rw [List.foldlM_append, ih.2 ⟨stack, hstack, rfl⟩]
      show [t].foldlM (evalStep fn mode) (stack.map (value fn mode)) = _
      rw [List.foldlM_cons, hstep.evalStep_eq]
      rfl

end Term

/-! ### Faults -/

section Faults

variable {fn : Elementary} {mode : AngleMode}

private theorem report_of_evalStep {stack : List Double} {t : Token} {f : Fault}
    (h : evalStep fn mode stack t = .error f) : f.kind = .parsing ∧ f.code = "3200" := by
  cases t with
  | operator op =>
    rw [evalStep] at h
    cases hstack : (op.kernel fn).onStack stack <;> rw [hstack] at h <;> cases h
    exact ⟨rfl, rfl⟩
  | function g =>
    rw [evalStep] at h
    cases hstack : (g.kernelIn fn mode).onStack stack <;> rw [hstack] at h <;> cases h
    exact ⟨rfl, rfl⟩
  | _ =>
    cases h <;> exact ⟨rfl, rfl⟩

theorem report_of_evalPostfix {ts : List Token} {f : Fault} (h : evalPostfix fn mode ts = .error f) :
    f.kind = .parsing ∧ f.code = "3200" := by
  rw [evalPostfix] at h
  cases hrun : ts.foldlM (evalStep fn mode) [] with
  | error e =>
    rw [hrun] at h
    cases h
    obtain ⟨-, t, -, stack, -, -, ht⟩ := foldlM_eq_error_iff.1 hrun
    exact report_of_evalStep ht
  | ok stack =>
    rw [hrun] at h
    cases stack with
    | nil =>
      cases h
      exact ⟨rfl, rfl⟩
    | cons x rest =>
      cases rest with
      | nil => cases h
      | cons y rest =>
        cases h
        exact ⟨rfl, rfl⟩

end Faults

private theorem evalPostfix_eq_ok_iff {fn : Elementary} {mode : AngleMode} {ts : List Token} {x : Double} :
    evalPostfix fn mode ts = .ok x ↔ ts.foldlM (evalStep fn mode) [] = .ok [x] := by
  rw [evalPostfix]
  cases ts.foldlM (evalStep fn mode) [] with
  | error e => constructor <;> intro h <;> cases h
  | ok stack =>
    rw [ok_bind]
    cases stack with
    | nil => simp
    | cons y rest => cases rest <;> simp

/-- Exactly the postorders of terms are evaluated, each to the value of its term, which is the only one.  Every other
list of tokens ends in a report of the evaluation with the code `3200`. -/
theorem evalPostfix_eq_ok_iff_postorder (fn : Elementary) (mode : AngleMode) (ts : List Token) :
    (∀ x, evalPostfix fn mode ts = .ok x ↔ ∃ e : Term, e.postorder = ts ∧ e.value fn mode = x) ∧
      (∀ e e' : Term, e.postorder = ts → e'.postorder = ts → e = e') ∧
      ((¬∃ e : Term, e.postorder = ts) →
        ∃ f, evalPostfix fn mode ts = .error f ∧ f.kind = .parsing ∧ f.code = "3200") := by
  have hvalue : ∀ x, evalPostfix fn mode ts = .ok x ↔ ∃ e : Term, e.postorder = ts ∧ e.value fn mode = x := by
    intro x
    rw [evalPostfix_eq_ok_iff, Term.foldlM_evalStep_iff]
    constructor
    · rintro ⟨stack, hstack, hvalues⟩
      obtain ⟨e, rfl, hx⟩ := List.map_eq_singleton_iff.1 hvalues
      exact ⟨e, by simpa [Term.backward] using hstack, hx⟩
    · rintro ⟨e, rfl, rfl⟩
      exact ⟨[e], by simp [Term.backward], rfl⟩
  refine ⟨hvalue, fun e e' he he' => Term.postorder_injective (he.trans he'.symm), fun hnone => ?_⟩
  cases heval : evalPostfix fn mode ts with
  | ok x => exact absurd ((hvalue x).1 heval) fun ⟨e, he, _⟩ => hnone ⟨e, he⟩
  | error f => exact ⟨f, rfl, report_of_evalPostfix heval⟩

end DeskCalc
