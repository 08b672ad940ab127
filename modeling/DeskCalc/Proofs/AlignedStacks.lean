import DeskCalc.Proofs.EnclosingGroup
import DeskCalc.Proofs.ScopedConversion
import Mathlib.Data.List.Chain

/-!
# The two stacks of the conversion

While tokens are read, the stack of what waits and the stack of scopes stay aligned, whatever the tokens are and
whether or not they can come from a text (`Aligned`, `stacks_stay_aligned`):

* every open parenthesis has its scope, in the same order, and the scope knows the function directly below the
  parenthesis and the commas read directly in it (`exists_openParenthesis`);
* of two operators that wait on one another the upper one binds tighter, or as tight and from the right
  (`Conversion.Step.isChain_standsOn`).

So no entry is ever taken off an empty stack.
-/

namespace DeskCalc

/-! ### Operators on operators -/

/-- An operator may wait directly on another one: its precedence is not lower, and equal only if it is right
associative. -/
def Operator.StandsOn (upper lower : Operator) : Prop :=
  lower.precedence ≤ upper.precedence ∧ (lower.precedence = upper.precedence → upper.associativity = .right)

private theorem Operator.standsOn_iff {upper lower : Operator} : upper.StandsOn lower ↔ ¬ lower.precedes upper := by
  cases h : upper.associativity <;> simp [StandsOn, precedes, h]

/-- Only of two operators anything is asked. -/
def Pending.StandsOn : Pending → Pending → Prop
  | .operator upper, .operator lower => upper.StandsOn lower
  | _, _ => True

namespace Conversion

variable {s s' : Conversion} {t : Token} {ts : List Token}

private theorem isChain_standsOn_operator (op : Operator) {stack : List Pending} (h : stack.IsChain Pending.StandsOn)
    (hhead : ∀ p ∈ stack.head?, ¬ yieldsTo op p) : (.operator op :: stack).IsChain Pending.StandsOn := by
  refine h.cons fun p hp => ?_
  cases p with
  | operator lower => exact Operator.standsOn_iff.2 (hhead _ hp)
  | function f => trivial
  | group n => trivial

/-- A sign change binds tightest, and an operator has sent out what it may not stand on. -/
theorem Step.isChain_standsOn (h : Step s t s') (hs : s.stack.IsChain Pending.StandsOn) :
    s'.stack.IsChain Pending.StandsOn := by
  cases h with
  | operand hvalue => exact hs
  | function f => exact hs.cons fun _ _ => trivial
  | opening => exact hs.cons fun _ _ => trivial
  | comma _ hstack _ _ =>
    rw [hstack] at hs
    exact hs.right_of_append.tail.cons fun _ _ => trivial
  | closeCall _ hstack _ _ =>
    rw [hstack] at hs
    exact hs.right_of_append.tail.tail
  | closeGroup _ hstack _ _ =>
    rw [hstack] at hs
    exact hs.right_of_append.tail
  | minus => exact isChain_standsOn_operator .negate hs fun p _ => not_yieldsTo_negate p
  | plus => exact hs
  | @binary op =>
    refine isChain_standsOn_operator op (hs.suffix (List.dropWhile_suffix _)) fun p hp => ?_
    have hnot := List.head?_dropWhile_not (yieldsTo op) s.stack
    rw [Option.mem_def.1 hp] at hnot
    exact Bool.eq_false_iff.1 hnot

private theorem isChain_standsOn_of_run (h : ts.foldlM read s = .ok s') (hs : s.stack.IsChain Pending.StandsOn) :
    s'.stack.IsChain Pending.StandsOn := by
  induction ts generalizing s with
  | nil =>
    cases h
    exact hs
  | cons t ts ih =>
    obtain ⟨next, hread, hrest⟩ := exists_of_foldlM_cons h
    exact ih hrest ((step_of_read hread).isChain_standsOn hs)

end Conversion

namespace ScopedConversion

/-! ### Parentheses and scopes -/

private theorem callee_eq_some_iff {operators : List Token} {f : Function} :
    callee operators = some f ↔ operators.head? = some (.function f) := by
  cases operators with
  | nil => simp [callee]
  | cons t below => cases t <;> simp [callee]

private theorem count_opening_map (stack : List Pending) : (stack.map word).count .opening = openCount stack := by
  induction stack with
  | nil => rfl
  | cons p stack ih => cases p <;> simp [word, ih]

private theorem length_scopesOf (stack : List Pending) : (scopesOf stack).length = openCount stack := by
  induction stack with
  | nil => rfl
  | cons p stack ih => cases p <;> simp [scopesOf, ih]

/-- The scopes of the lower part of a stack are the lower ones. -/
private theorem drop_scopesOf_append (above below : List Pending) :
    (scopesOf (above ++ below)).drop (openCount above) = scopesOf below := by
  induction above with
  | nil => rfl
  | cons p above ih => cases p <;> simpa [scopesOf] using ih

/-- A run over tokens is the image of the run with one stack. -/
private theorem foldlM_read_eq_ok_iff {ts : List Token} {s : ScopedConversion} :
    ts.foldlM read start = .ok s ↔ ∃ c, ts.foldlM Conversion.read .start = .ok c ∧ of c = s := by
  have hrun : ts.foldlM read start = untrapped ((ts.foldlM Conversion.read .start).map of) := foldlM_read_of .start ts
  rw [hrun, untrapped, mapError_eq_ok_iff]
  constructor
  · exact exists_of_map_eq_ok
  · rintro ⟨c, hc, rfl⟩
    rw [hc]
    rfl

/-- An open parenthesis: the tokens read before and after it, what waits above it, and the state in which it was
opened. -/
structure OpenParenthesis where
  before : List Token
  inside : List Token
  above : List Token
  outside : ScopedConversion

/-- The parenthesis is open after the tokens `ts`, and with it `depth` others that were opened in it.  It waits on what
waited when it was opened. -/
structure OpenParenthesis.IsOpen (p : OpenParenthesis) (depth : Nat) (ts : List Token) (s : ScopedConversion) :
    Prop where
  tokens_eq : ts = p.before ++ .opening :: p.inside
  balance : Balance 0 p.inside depth
  run : p.before.foldlM read start = .ok p.outside
  operators_eq : s.operators = p.above ++ .opening :: p.outside.operators
  count_above : p.above.count .opening = depth

/-- The scope knows which function waits directly below the parenthesis, whether anything does, and one argument more
than there are commas directly in it. -/
structure OpenParenthesis.HasScope (p : OpenParenthesis) (scope : Scope) : Prop where
  function_eq_some_iff : ∀ f, scope.function = some f ↔ p.outside.operators.head? = some (.function f)
  nested_iff : scope.nested = true ↔ p.outside.operators ≠ []
  arguments_eq : scope.arguments = commasAt 0 p.inside + 1

/-- The stacks after the tokens `ts`.  The parentheses that wait and the scopes are matched in order, and operators
stand on operators only as they may. -/
structure Aligned (ts : List Token) (s : ScopedConversion) : Prop where
  length_scopes : s.scopes.length = s.operators.count .opening
  matched : ∀ inner scope outer, s.scopes = inner ++ scope :: outer →
    ∃ p : OpenParenthesis, p.IsOpen inner.length ts s ∧ p.HasScope scope ∧ p.outside.scopes = outer
  standsOn : ∀ above upper lower below, s.operators = above ++ .operator upper :: .operator lower :: below →
    upper.StandsOn lower

section Aligned

variable {ts : List Token} {c : Conversion}

/-- The scope with `inner` above it is the one of the parenthesis that was opened that many levels further out. -/
theorem exists_openParenthesis (hrun : ts.foldlM Conversion.read .start = .ok c) {inner outer : List Scope}
    {scope : Scope} (hscopes : scopesOf c.stack = inner ++ scope :: outer) :
    ∃ p : OpenParenthesis, p.IsOpen inner.length ts (of c) ∧ p.HasScope scope ∧ p.outside.scopes = outer := by
  have hlt : inner.length < openCount c.stack := by
    rw [← length_scopesOf, hscopes, List.length_append, List.length_cons]
    omega
  obtain ⟨before, inside, rfl, hbalance⟩ := Conversion.exists_opening_of_lt hrun hlt
  obtain ⟨outside, above, houtside, hstack, hcount⟩ := Conversion.exists_stack_of_balance hbalance hrun
  -- the scopes below the `inner` ones are those of the stack below `above`
  have hdrop := drop_scopesOf_append above (.group (commasAt 0 inside + 1) :: outside.stack)
  rw [← hstack, hscopes, hcount, List.drop_left] at hdrop
  obtain ⟨rfl, rfl⟩ := List.cons.inj hdrop
  refine ⟨⟨before, inside, above.map word, of outside⟩, ⟨rfl, hbalance, ?_, ?_, ?_⟩, ⟨?_, ?_, rfl⟩, rfl⟩
  · exact foldlM_read_eq_ok_iff.2 ⟨outside, houtside, rfl⟩
  · simp [of, hstack, word]
  · rw [count_opening_map, hcount]
  · exact fun f => callee_eq_some_iff
  · simp [of]

private theorem standsOn_of_isChain (h : c.stack.IsChain Pending.StandsOn) {above below : List Token}
    {upper lower : Operator}
    (hoperators : c.stack.map word = above ++ .operator upper :: .operator lower :: below) : upper.StandsOn lower := by
  obtain ⟨ps, qs, hstack, -, hqs⟩ := List.map_eq_append_iff.1 hoperators
  obtain ⟨p, rest, rfl, hp, hrest⟩ := List.map_eq_cons_iff.1 hqs
  obtain ⟨q, tail, rfl, hq, -⟩ := List.map_eq_cons_iff.1 hrest
  -- only an operator waits as an operator
  cases p <;> cases hp
  cases q <;> cases hq
  rw [hstack] at h
  exact (List.isChain_cons_cons.1 h.right_of_append).1

end Aligned

/-- After any tokens that are read without a fault the two stacks are aligned.  So no entry is missing where one is
taken off: the conversion of any tokens does not trap and gives what the conversion with one stack gives. -/
theorem stacks_stay_aligned (ts : List Token) :
    (∀ pre, pre <+: ts →
      pre.foldlM read start = untrapped ((pre.foldlM Conversion.read .start).map of) ∧
        ∀ s, pre.foldlM read start = .ok s → Aligned pre s) ∧
      toPostfix ts = untrapped (DeskCalc.toPostfix ts) ∧ ∀ trap, toPostfix ts ≠ .error (.trap trap) := by
  refine ⟨fun pre _ => ⟨foldlM_read_of .start pre, fun s hread => ?_⟩, toPostfix_eq ts, fun trap => ?_⟩
  · obtain ⟨c, hrun, rfl⟩ := foldlM_read_eq_ok_iff.1 hread
    have hchain := Conversion.isChain_standsOn_of_run hrun .nil
    refine ⟨?_, fun inner scope outer hscopes => exists_openParenthesis hrun hscopes, ?_⟩
    · exact (length_scopesOf c.stack).trans (count_opening_map c.stack).symm
    · exact fun above upper lower below hoperators => standsOn_of_isChain hchain hoperators
  · rw [toPostfix_eq]
    exact untrapped_ne_trap _ trap

open Token in
/-- Of `1 + 2 * max 3 ( 4 , - ( 6 ^ 7 ^ ) ) )` the last parenthesis is unmatched; before the first one is closed, two
scopes, a sign change and two powers wait, and the function waits below its parenthesis across an operand. -/
theorem aligned_before_unmatched :
    let pre : List Token := [number (.ofNat 1), operator .add, number (.ofNat 2), operator .multiply, function .max,
      number (.ofNat 3), opening, number (.ofNat 4), comma, operator .subtract, opening, number (.ofNat 6),
      operator .power, number (.ofNat 7), operator .power]
    let ts : List Token := pre ++ [closing, closing, closing]
    let s : ScopedConversion :=
      { operators := [operator .power, operator .power, opening, operator .negate, opening, function .max,
          operator .multiply, operator .add]
        scopes := [⟨none, true, 1⟩, ⟨some .max, true, 2⟩]
        output := [number (.ofNat 7), number (.ofNat 6), number (.ofNat 4), number (.ofNat 3), number (.ofNat 2),
          number (.ofNat 1)]
        last := some (operator .power) }
    toPostfix ts = .error (.fault .unmatchedParenthesis) ∧ pre <+: ts ∧ pre.foldlM read start = .ok s ∧
      Aligned pre s := by
  intro pre ts s
  have hprefix : pre <+: ts := List.prefix_append pre _
  have hread : pre.foldlM read start = .ok s := rfl
  exact ⟨rfl, hprefix, hread, ((stacks_stay_aligned ts).1 pre hprefix).2 s hread⟩

end ScopedConversion

end DeskCalc
