import DeskCalc.Proofs.Computation
import DeskCalc.Proofs.OperatorStack

/-!
# What one token does to the conversion

`Conversion.Step` lists what can happen when a token is read without a fault, one constructor for each way, with
what the stack must look like.  Every invariant of the conversion is a case analysis on it.
-/

namespace DeskCalc

namespace Conversion

/-- The conversion goes from the first state to the second one when it reads the token. -/
inductive Step (s : Conversion) : Token → Conversion → Prop where
  | operand {t : Token} (value : t.value?.isSome = true) : Step s t ⟨s.stack, t :: s.output, some t⟩
  | function (f : Function) : Step s (.function f) ⟨.function f :: s.stack, s.output, some (.function f)⟩
  | opening : Step s .opening ⟨.group 1 :: s.stack, s.output, some .opening⟩
  | comma {above below : List Pending} {n : Nat} (filled : argumentIsEmpty s.last = false)
      (stack_eq : s.stack = above ++ .group n :: below) (above_isSome : ∀ p ∈ above, p.token?.isSome)
      (outermost_or_call : below = [] ∨ ∃ f rest, below = .function f :: rest) :
      Step s .comma ⟨.group (n + 1) :: below, release above s.output, some .comma⟩
  | closeCall {above below : List Pending} {n : Nat} {f : Function} (filled : s.last ≠ some .comma)
      (stack_eq : s.stack = above ++ .group n :: .function f :: below)
      (above_isSome : ∀ p ∈ above, p.token?.isSome) (enough : f.arity ≤ n) :
      Step s .closing ⟨below, .function f :: release above s.output, some .closing⟩
  | closeGroup {above below : List Pending} {n : Nat} (filled : s.last ≠ some .comma)
      (stack_eq : s.stack = above ++ .group n :: below) (above_isSome : ∀ p ∈ above, p.token?.isSome)
      (bare : ∀ f rest, below ≠ .function f :: rest) :
      Step s .closing ⟨below, release above s.output, some .closing⟩
  | minus {op : Operator} (prefixed : expectsOperand s.last = true) (symbol_eq : op.symbol = '-') :
      Step s (.operator op) ⟨.operator .negate :: s.stack, s.output, some (.operator op)⟩
  | plus {op : Operator} (prefixed : expectsOperand s.last = true) (symbol_eq : op.symbol = '+') :
      Step s (.operator op) ⟨s.stack, s.output, some (.operator op)⟩
  | binary {op : Operator} (infixed : expectsOperand s.last = false) :
      Step s (.operator op) ⟨.operator op :: s.stack.dropWhile (yieldsTo op),
        release (s.stack.takeWhile (yieldsTo op)) s.output, some (.operator op)⟩

variable {s s' : Conversion}

theorem Step.last_eq {t : Token} (h : Step s t s') : s'.last = some t := by
  cases h <;> rfl

private theorem step_of_readComma (h : s.readComma = .ok s') : Step s .comma s' := by
  unfold readComma at h
  split at h
  · cases h
  · rename_i hfilled
    split at h
    · cases h
    · rename_i n below output hunwind
      obtain ⟨above, hstack, habove, rfl⟩ := exists_of_unwind hunwind
      split at h
      · cases h
        exact .comma (Bool.eq_false_iff.2 hfilled) hstack habove (.inl rfl)
      · cases h
        exact .comma (Bool.eq_false_iff.2 hfilled) hstack habove (.inr ⟨_, _, rfl⟩)
      · cases h

private theorem step_of_readClosing (h : s.readClosing = .ok s') : Step s .closing s' := by
  unfold readClosing at h
  split at h
  · cases h
  · rename_i hfilled
    split at h
    · cases h
    · rename_i n f below output hunwind
      obtain ⟨above, hstack, habove, rfl⟩ := exists_of_unwind hunwind
      split at h
      · cases h
      · rename_i henough
        cases h
        exact .closeCall hfilled hstack habove (Nat.le_of_not_lt henough)
    · rename_i n below output hbare hunwind
      obtain ⟨above, hstack, habove, rfl⟩ := exists_of_unwind hunwind
      cases h
      exact .closeGroup hfilled hstack habove fun f rest hbelow => hbare f rest hbelow

private theorem step_of_readOperator {op : Operator} (h : s.readOperator op = .ok s') : Step s (.operator op) s' := by
  unfold readOperator at h
  simp only at h
  split at h
  · rename_i hprefixed
    split at h
    · rename_i hminus
      rw [pushOperator_negate] at h
      cases h
      exact .minus hprefixed hminus
    · split at h
      · rename_i hplus
        cases h
        exact .plus hprefixed hplus
      · cases h
  · rename_i hinfixed
    rw [pushOperator_eq] at h
    cases h
    exact .binary (Bool.eq_false_iff.2 hinfixed)

theorem step_of_read {t : Token} (h : s.read t = .ok s') : Step s t s' := by
  cases t with
  | number x =>
    cases h
    exact .operand rfl
  | previous x =>
    cases h
    exact .operand rfl
  | constant n x =>
    cases h
    exact .operand rfl
  | operator op => exact step_of_readOperator h
  | function f =>
    cases h
    exact .function f
  | opening =>
    cases h
    exact .opening
  | closing => exact step_of_readClosing h
  | comma => exact step_of_readComma h

theorem Step.read_eq {t : Token} (h : Step s t s') : s.read t = .ok s' := by
  cases h with
  | operand hvalue => cases t <;> first | rfl | cases hvalue
  | function f => rfl
  | opening => rfl
  | comma hfilled hstack habove hbelow =>
    change s.readComma = _
    rw [readComma, if_neg (Bool.eq_false_iff.1 hfilled), hstack, unwind_append habove]
    rcases hbelow with rfl | ⟨f, rest, rfl⟩
    · rfl
    · rfl
  | closeCall hfilled hstack habove henough =>
    change s.readClosing = _
    rw [readClosing, if_neg hfilled, hstack, unwind_append habove]
    exact if_neg (Nat.not_lt.2 henough)
  | @closeGroup above below n hfilled hstack habove hbare =>
    change s.readClosing = _
    rw [readClosing, if_neg hfilled, hstack, unwind_append habove]
    cases below with
    | nil => rfl
    | cons p below =>
      cases p with
      | function f => exact absurd rfl (hbare f below)
      | operator op => rfl
      | group m => rfl
  | @minus op hprefixed hsymbol =>
    change s.readOperator op = _
    rw [readOperator]
    simp only
    rw [if_pos hprefixed, if_pos hsymbol, pushOperator_negate]
  | @plus op hprefixed hsymbol =>
    change s.readOperator op = _
    rw [readOperator]
    simp only
    rw [if_pos hprefixed, if_neg (by rw [hsymbol]; decide), if_pos hsymbol]
  | @binary op hinfixed =>
    change s.readOperator op = _
    rw [readOperator]
    simp only
    rw [if_neg (Bool.eq_false_iff.1 hinfixed), pushOperator_eq]

end Conversion

end DeskCalc
