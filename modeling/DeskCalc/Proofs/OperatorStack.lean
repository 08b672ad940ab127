import DeskCalc.Postfix

/-!
# The stack of operators

What the loops of the conversion to postfix order do to the stack, without their recursion: each sends out an
initial part of the stack (`release`) and leaves the rest.

* `unwind_append`, `exists_of_unwind`: everything above the topmost open parenthesis is sent out;
* `pushOperator_eq`: exactly the operators that precede the new one are sent out;
* `finish_eq_ok_iff`: at the end everything is sent out, and no parenthesis is open.
-/

namespace DeskCalc

namespace Conversion

/-- The output after the entries `ps` of the stack, topmost first, have been sent out. -/
def release (ps : List Pending) (output : List Token) : List Token :=
  (ps.filterMap Pending.token?).reverse ++ output

@[simp]
theorem release_nil (output : List Token) : release [] output = output := rfl

theorem release_append (ps qs : List Pending) (output : List Token) :
    release (ps ++ qs) output = release qs (release ps output) := by
  simp [release, List.filterMap_append]

theorem release_cons (p : Pending) (ps : List Pending) (output : List Token) :
    release (p :: ps) output = release ps (p.token?.toList ++ output) := by
  cases h : p.token? <;> simp [release, h]

/-! ### Down to the open parenthesis -/

theorem unwind_append {above : List Pending} (h : ∀ p ∈ above, p.token?.isSome) (n : Nat) (below : List Pending)
    (output : List Token) :
    unwind output (above ++ .group n :: below) = some (n, below, release above output) := by
  induction above generalizing output with
  | nil => rfl
  | cons p above ih =>
    have hp := h p (by simp)
    have hrest : ∀ q ∈ above, q.token?.isSome := fun q hq => h q (by simp [hq])
    rw [release_cons]
    cases p with
    | operator op => exact ih hrest _
    | function f => exact ih hrest _
    | group m => simp [Pending.token?] at hp

theorem exists_of_unwind {output : List Token} {stack : List Pending} {n : Nat} {below : List Pending}
    {output' : List Token} (h : unwind output stack = some (n, below, output')) :
    ∃ above, stack = above ++ .group n :: below ∧ (∀ p ∈ above, p.token?.isSome) ∧
      output' = release above output := by
  induction stack generalizing output with
  | nil => simp [unwind] at h
  | cons p stack ih =>
    cases p with
    | group m =>
      simp only [unwind, Option.some.injEq, Prod.mk.injEq] at h
      obtain ⟨rfl, rfl, rfl⟩ := h
      exact ⟨[], rfl, by simp, rfl⟩
    | operator op =>
      obtain ⟨above, rfl, hall, rfl⟩ := ih h
      exact ⟨.operator op :: above, rfl, by simpa [Pending.token?] using hall, by simp [release_cons, Pending.token?]⟩
    | function f =>
      obtain ⟨above, rfl, hall, rfl⟩ := ih h
      exact ⟨.function f :: above, rfl, by simpa [Pending.token?] using hall, by simp [release_cons, Pending.token?]⟩

/-! ### Below an operator -/

/-- Whether the entry is sent out before the operator `op` is put on the stack. -/
def yieldsTo (op : Operator) : Pending → Bool
  | .operator top => top.precedes op
  | _ => false

theorem pushOperator_eq (op : Operator) (output : List Token) (stack : List Pending) :
    pushOperator op output stack =
      (.operator op :: stack.dropWhile (yieldsTo op), release (stack.takeWhile (yieldsTo op)) output) := by
  induction stack generalizing output with
  | nil => rfl
  | cons p stack ih =>
    cases p with
    | operator top =>
      by_cases h : top.precedes op
      · have hy : yieldsTo op (.operator top) = true := h
        rw [pushOperator, if_pos h, ih, List.dropWhile_cons_of_pos hy, List.takeWhile_cons_of_pos hy, release_cons]
        rfl
      · have hy : ¬ yieldsTo op (.operator top) = true := h
        rw [pushOperator, if_neg h, List.dropWhile_cons_of_neg hy, List.takeWhile_cons_of_neg hy]
        rfl
    | function f => rfl
    | group n => rfl

/-- Nothing binds tighter than a sign change. -/
theorem not_yieldsTo_negate (p : Pending) : ¬ yieldsTo .negate p = true := by
  cases p with
  | operator top => cases top <;> decide
  | function f => exact Bool.false_ne_true
  | group n => exact Bool.false_ne_true

/-- A sign change sends nothing out. -/
theorem pushOperator_negate (output : List Token) (stack : List Pending) :
    pushOperator .negate output stack = (.operator .negate :: stack, output) := by
  rw [pushOperator_eq]
  cases stack with
  | nil => rfl
  | cons p stack =>
    have hstop := not_yieldsTo_negate p
    rw [List.takeWhile_cons_of_neg hstop, List.dropWhile_cons_of_neg hstop, release_nil]

/-! ### At the end -/

private theorem drain_eq_ok_iff {output : List Token} {stack : List Pending} {result : List Token} :
    drain output stack = .ok result ↔ (∀ p ∈ stack, p.token?.isSome) ∧ result = release stack output := by
  induction stack generalizing output with
  | nil =>
    simp only [drain, Except.ok.injEq, List.not_mem_nil, false_implies, implies_true, true_and, release_nil]
    exact eq_comm
  | cons p stack ih =>
    cases p with
    | operator op => simp [drain, ih, release_cons, Pending.token?]
    | function f => simp [drain, ih, release_cons, Pending.token?]
    | group n => simp [drain, Pending.token?]

theorem finish_eq_ok_iff {s : Conversion} {result : List Token} :
    s.finish = .ok result ↔
      (∀ p ∈ s.stack, p.token?.isSome) ∧ result = (release s.stack s.output).reverse := by
  cases hdrain : drain s.output s.stack with
  | error e =>
    have hnone : ∀ result, drain s.output s.stack ≠ .ok result := by simp [hdrain]
    simp only [finish, hdrain]
    constructor
    · intro h
      cases h
    · rintro ⟨hall, -⟩
      exact absurd (drain_eq_ok_iff.2 ⟨hall, rfl⟩) (hnone _)
  | ok output =>
    obtain ⟨hall, rfl⟩ := drain_eq_ok_iff.1 hdrain
    simp only [finish, hdrain]
    constructor
    · intro h
      cases h
      exact ⟨hall, rfl⟩
    · rintro ⟨-, rfl⟩
      rfl

end Conversion

end DeskCalc
