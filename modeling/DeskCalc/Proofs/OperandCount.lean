import Mathlib.Tactic.ByContra
import DeskCalc.Proofs.ConversionStep
import DeskCalc.Proofs.Nesting
import DeskCalc.StackMachine

/-!
# Counting operands

The stack machine only checks how many values are left, so a list of tokens is accepted if the numbers of operands
and of arguments balance in the whole of it.

* `Token.weight` is what a token adds to the number of values on the stack, and `total` of an accepted list is one
  (`total_of_evalPostfix`).
* `Conversion.pendingTotal` is the number of values if everything that waits were sent out; a token that is read changes it
  by `weightAfter` (`Step.total_eq`).
* `expected` is the number of values that the tokens leave if no operand is missing.  It grows more than the total
  exactly where a comma or a closing parenthesis does not come after an operand (`expected_nest`).
-/

namespace DeskCalc

/-- What the token adds to the number of values on the stack. -/
def Token.weight : Token → Int
  | .number _ | .previous _ | .constant _ _ => 1
  | .operator op => 1 - op.arity
  | .function f => 1 - f.arity
  | .opening | .closing | .comma => 0

/-- The number of values that the tokens leave on an empty stack. -/
def total : List Token → Int
  | [] => 0
  | t :: ts => t.weight + total ts

@[simp]
private theorem total_nil : total [] = 0 := rfl

@[simp]
private theorem total_cons (t : Token) (ts : List Token) : total (t :: ts) = t.weight + total ts := rfl

@[simp]
private theorem total_append (ts us : List Token) : total (ts ++ us) = total ts + total us := by
  induction ts with
  | nil => exact (Int.zero_add _).symm
  | cons t ts ih =>
    rw [List.cons_append, total_cons, total_cons, ih]
    omega

@[simp]
private theorem total_reverse (ts : List Token) : total ts.reverse = total ts := by
  induction ts with
  | nil => rfl
  | cons t ts ih =>
    rw [List.reverse_cons, total_append, ih]
    simp only [total_cons, total_nil]
    omega

/-! ### The stack machine -/

section StackMachine

variable {fn : Elementary} {mode : AngleMode}

private theorem Kernel.length_onStack {k : Kernel} {stack stack' : List Double} (h : k.onStack stack = some stack') :
    (stack'.length : Int) = stack.length + (1 - k.arity) := by
  cases k with
  | unary f =>
    cases stack with
    | nil => cases h
    | cons x rest =>
      cases h
      simp only [List.length_cons, Kernel.arity]
      omega
  | binary f =>
    cases stack with
    | nil => cases h
    | cons y rest =>
      cases rest with
      | nil => cases h
      | cons x rest =>
        cases h
        simp only [List.length_cons, Kernel.arity]
        omega

private theorem length_of_elim {k : Kernel} {stack stack' : List Double}
    (h : (k.onStack stack).elim (Except.error Fault.operandImbalance) Except.ok = .ok stack') :
    (stack'.length : Int) = stack.length + (1 - k.arity) := by
  cases hk : k.onStack stack with
  | none =>
    rw [hk] at h
    cases h
  | some result =>
    rw [hk] at h
    cases h
    exact Kernel.length_onStack hk

private theorem length_evalStep {stack stack' : List Double} {t : Token} (h : evalStep fn mode stack t = .ok stack') :
    (stack'.length : Int) = stack.length + t.weight := by
  cases t with
  | operator op =>
    have hlength := length_of_elim h
    rwa [Operator.arity_kernel] at hlength
  | function f =>
    have hlength := length_of_elim h
    rwa [Function.arity_kernelIn] at hlength
  | opening => cases h
  | closing => cases h
  | comma => cases h
  | _ =>
    cases h
    simp [Token.weight]

private theorem length_foldlM_evalStep {ts : List Token} {stack stack' : List Double}
    (h : ts.foldlM (evalStep fn mode) stack = .ok stack') : (stack'.length : Int) = stack.length + total ts := by
  induction ts generalizing stack with
  | nil =>
    cases h
    simp
  | cons t ts ih =>
    obtain ⟨next, hstep, hrun⟩ := exists_of_foldlM_cons h
    have hfirst := length_evalStep hstep
    have hrest := ih hrun
    rw [total_cons]
    omega

/-- Tokens that have a value leave one value. -/
theorem total_of_evalPostfix {ts : List Token} {x : Double} (h : evalPostfix fn mode ts = .ok x) : total ts = 1 := by
  cases hrun : ts.foldlM (evalStep fn mode) [] with
  | error e =>
    rw [evalPostfix, hrun] at h
    cases h
  | ok stack =>
    have hlength := length_foldlM_evalStep hrun
    rw [evalPostfix, hrun] at h
    match stack, h with
    | [y], _ => simpa using hlength.symm

end StackMachine

/-! ### The conversion -/

/-- What the token adds to the number of values when it is read after `last`: a sign adds nothing. -/
def weightAfter (last : Option Token) : Token → Int
  | .operator op => if Conversion.expectsOperand last then 0 else (Token.operator op).weight
  | t => t.weight

namespace Conversion

/-- The number of values if everything that waits were sent out. -/
def pendingTotal (s : Conversion) : Int :=
  total (release s.stack s.output)

private theorem total_release_cons (ps : List Pending) (t : Token) (output : List Token) :
    total (release ps (t :: output)) = total (release ps output) + t.weight := by
  simp only [release, total_append, total_cons]
  omega

variable {s s' : Conversion} {t : Token}

theorem Step.total_eq (h : Step s t s') (hnegate : t ≠ .operator .negate) :
    s'.pendingTotal = s.pendingTotal + weightAfter s.last t := by
  cases h with
  | operand hvalue =>
    rw [pendingTotal, total_release_cons]
    cases t <;> first | rfl | cases hvalue
  | function f =>
    rw [pendingTotal, release_cons]
    exact total_release_cons s.stack (.function f) s.output
  | opening =>
    rw [pendingTotal, release_cons]
    exact (Int.add_zero _).symm
  | comma _ hstack _ _ =>
    rw [pendingTotal, pendingTotal, hstack, release_append, release_cons, release_cons]
    exact (Int.add_zero _).symm
  | closeCall _ hstack _ _ =>
    rw [pendingTotal, pendingTotal, hstack, release_append, release_cons, release_cons]
    exact (Int.add_zero _).symm
  | closeGroup _ hstack _ _ =>
    rw [pendingTotal, pendingTotal, hstack, release_append, release_cons]
    exact (Int.add_zero _).symm
  | minus hprefixed _ =>
    have hweight : (Token.operator .negate).weight = 0 := rfl
    have hrelease := total_release_cons s.stack (.operator .negate) s.output
    rw [pendingTotal, release_cons, weightAfter, if_pos hprefixed, pendingTotal, ← hweight]
    exact hrelease
  | plus hprefixed _ =>
    rw [weightAfter, if_pos hprefixed]
    exact (Int.add_zero _).symm
  | @binary op hinfixed =>
    have hsplit := release_append (s.stack.takeWhile (yieldsTo op)) (s.stack.dropWhile (yieldsTo op)) s.output
    rw [List.takeWhile_append_dropWhile] at hsplit
    rw [weightAfter, if_neg (Bool.eq_false_iff.1 hinfixed), pendingTotal, pendingTotal, hsplit, release_cons]
    exact total_release_cons _ (.operator op) _

theorem total_of_finish {ts : List Token} (h : s.finish = .ok ts) : total ts = s.pendingTotal := by
  rw [(finish_eq_ok_iff.1 h).2, total_reverse]
  rfl

end Conversion

/-! ### If no operand is missing -/

/-- What an open group adds to the number of values: those of its arguments before the last one, and what the call
will take away. -/
def OpenGroup.weight (g : OpenGroup) : Int :=
  g.arguments - g.capacity

/-- The sum over all open groups. -/
def openWeight : List OpenGroup → Int
  | [] => 0
  | g :: groups => g.weight + openWeight groups

/-- The number of values after tokens in which no operand is missing: the operand that has just ended, or a function
whose parenthesis is still to come, and the open groups. -/
def expected (last : Option Token) (groups : List OpenGroup) : Int :=
  (if ended last then 1 else 0) + ((calleeAfter last).map fun f => (Token.function f).weight).getD 0 +
    openWeight groups

/-- The number of operands that are missing between `last` and the token. -/
def missingBefore (last : Option Token) : Token → Int
  | .comma | .closing => if ended last then 0 else 1
  | _ => 0

theorem missingBefore_nonneg (last : Option Token) (t : Token) : 0 ≤ missingBefore last t := by
  cases t with
  | comma =>
    rw [missingBefore]
    split <;> decide
  | closing =>
    rw [missingBefore]
    split <;> decide
  | _ => exact Int.le_refl 0

/-- Where no operand is missing, commas and closing parentheses come after an operand. -/
theorem ended_of_missingBefore_eq_zero {last : Option Token} {t : Token} (h : missingBefore last t = 0)
    (ht : t = .comma ∨ t = .closing) : ended last = true := by
  by_contra hended
  have hone : missingBefore last t = 1 := by
    rcases ht with rfl | rfl
    · exact if_neg hended
    · exact if_neg hended
  omega

section Expected

variable {last : Option Token} {groups : List OpenGroup}

theorem expected_of_ended (h : ended last = true) (groups : List OpenGroup) :
    expected last groups = 1 + openWeight groups := by
  have hbare : calleeAfter last = none := by
    cases last with
    | none => rfl
    | some u => cases u <;> first | rfl | exact absurd h Bool.false_ne_true
  rw [expected, if_pos h, hbare]
  rfl

theorem expected_of_not_ended (h : ended last = false) (hbare : calleeAfter last = none) (groups : List OpenGroup) :
    expected last groups = openWeight groups := by
  rw [expected, if_neg (Bool.eq_false_iff.1 h), hbare]
  exact Int.zero_add _

/-- Signs come where no operand has ended, apart from the place after a function. -/
theorem expectsOperand_eq (h : calleeAfter last = none) : Conversion.expectsOperand last = !ended last := by
  cases last with
  | none => rfl
  | some u =>
    cases u with
    | function f => cases h
    | _ => rfl

private theorem expected_opening (h : Token.opening.Follows last) :
    expected (some .opening) (⟨calleeAfter last, 1⟩ :: groups) = expected last groups := by
  rw [expected_of_not_ended rfl rfl, openWeight, expected, if_neg (Bool.eq_false_iff.1 (h.ended_eq rfl)),
    Int.zero_add]
  cases calleeAfter last with
  | none => rfl
  | some f => rfl

private theorem expected_operator {op : Operator} (hop : op ≠ .negate) (h : (Token.operator op).Follows last) :
    expected (some (.operator op)) groups = expected last groups + weightAfter last (.operator op) := by
  have hbare := h.calleeAfter_eq (by simp)
  rw [expected_of_not_ended rfl rfl, weightAfter, expectsOperand_eq hbare]
  cases hends : ended last with
  | false =>
    -- a sign has no left operand
    rw [expected_of_not_ended hends hbare]
    exact (Int.add_zero _).symm
  | true =>
    have hweight : (Token.operator op).weight = -1 := by cases op <;> first | rfl | exact absurd rfl hop
    rw [expected_of_ended hends, if_neg (by decide), hweight]
    omega

/-- With the operand that is missing before a comma or a closing parenthesis the operand there has ended. -/
private theorem expected_add_missingBefore {t : Token} (h : t.Follows last) (ht : t = .comma ∨ t = .closing)
    (groups : List OpenGroup) : expected last groups + missingBefore last t = 1 + openWeight groups := by
  have hmissing : missingBefore last t = if ended last then 0 else 1 := by
    rcases ht with rfl | rfl
    · rfl
    · rfl
  have hne : t ≠ .opening := by
    rcases ht with rfl | rfl
    · exact nofun
    · exact nofun
  rw [hmissing]
  cases hends : ended last with
  | false =>
    rw [expected_of_not_ended hends (h.calleeAfter_eq hne), if_neg Bool.false_ne_true]
    omega
  | true =>
    rw [expected_of_ended hends, if_pos rfl]
    omega

private theorem expected_comma (h : Token.comma.Follows last) (hgroups : groups ≠ []) :
    expected (some .comma) (nest last groups .comma) = expected last groups + missingBefore last .comma := by
  cases groups with
  | nil => exact absurd rfl hgroups
  | cons g groups =>
    have hnext : OpenGroup.weight ⟨g.callee, g.arguments + 1⟩ = g.weight + 1 := by
      show ((g.arguments + 1 : Nat) : Int) - g.capacity = g.arguments - g.capacity + 1
      omega
    have hafter : expected (some .comma) (nest last (g :: groups) .comma) = g.weight + 1 + openWeight groups := by
      rw [← hnext]
      exact expected_of_not_ended rfl rfl _
    rw [hafter, expected_add_missingBefore h (.inl rfl), openWeight]
    omega

private theorem expected_closing (h : Token.closing.Follows last) {g : OpenGroup} (hgroups : groups.head? = some g)
    (hfull : g.arguments = g.capacity) :
    expected (some .closing) groups.tail = expected last groups + missingBefore last .closing := by
  cases groups with
  | nil => cases hgroups
  | cons g groups =>
    cases hgroups
    have hweight : g.weight = 0 := by
      rw [OpenGroup.weight, hfull]
      omega
    have hafter : expected (some .closing) groups = 1 + openWeight groups := expected_of_ended rfl groups
    rw [List.tail_cons, hafter, expected_add_missingBefore h (.inr rfl), openWeight, hweight]
    omega

/-- A token that begins an operand, which is complete or is a function. -/
private theorem expected_operand {t : Token} (hfollows : t.Follows last) (hbegins : t.beginsOperand = true)
    (hne : t ≠ .opening) : expected (some t) groups = expected last groups + t.weight := by
  rw [expected_of_not_ended (hfollows.ended_eq hbegins) (hfollows.calleeAfter_eq hne)]
  cases t with
  | function f =>
    have hafter : expected (some (.function f)) groups = 0 + (Token.function f).weight + openWeight groups := rfl
    rw [hafter]
    omega
  | opening => exact absurd rfl hne
  | operator op => cases hbegins
  | closing => cases hbegins
  | comma => cases hbegins
  | _ =>
    rw [expected_of_ended rfl]
    exact Int.add_comm _ _

/-- The expected number grows as the weights of the tokens say, and by one where an operand is missing. -/
theorem expected_nest {t : Token} (hfollows : t.Follows last) (hnegate : t ≠ .operator .negate)
    (hcomma : t = .comma → groups ≠ [])
    (hclosing : t = .closing → ∃ g, groups.head? = some g ∧ g.arguments = g.capacity) :
    expected (some t) (nest last groups t) = expected last groups + weightAfter last t + missingBefore last t := by
  cases t with
  | operator op =>
    have hop : op ≠ .negate := fun h => hnegate (congrArg Token.operator h)
    exact (expected_operator hop hfollows).trans (Int.add_zero _).symm
  | opening =>
    show _ = expected last groups + 0 + 0
    rw [Int.add_zero, Int.add_zero]
    exact expected_opening hfollows
  | closing =>
    obtain ⟨g, hg, hfull⟩ := hclosing rfl
    have hweight : weightAfter last .closing = 0 := rfl
    rw [hweight, Int.add_zero]
    exact expected_closing hfollows hg hfull
  | comma =>
    have hweight : weightAfter last .comma = 0 := rfl
    rw [hweight, Int.add_zero]
    exact expected_comma hfollows (hcomma rfl)
  | _ => exact (expected_operand hfollows rfl (by simp)).trans (Int.add_zero _).symm

end Expected

end DeskCalc
