import DeskCalc.Proofs.ConversionStep

/-!
# Where the conversion stops

`Conversion.Stop` lists the ways in which a token cannot be read, one constructor for each, with what the stack must
look like: the counterpart of `Conversion.Step`.  A conversion fails exactly if a token cannot be read after all
tokens before it were, or if a parenthesis is still open at the end (`toPostfix_eq_error_iff`).
-/

namespace DeskCalc

namespace Conversion

/-- The conversion cannot read the token in this state, because of the fault. -/
inductive Stop (s : Conversion) : Token → Fault → Prop where
  | emptyBeforeComma (empty : argumentIsEmpty s.last = true) : Stop s .comma .emptyArgument
  | outermostComma (filled : argumentIsEmpty s.last = false) (closed : ∀ p ∈ s.stack, p.token?.isSome) :
      Stop s .comma .unmatchedParenthesis
  | strayComma {above below : List Pending} {n : Nat} (filled : argumentIsEmpty s.last = false)
      (stack_eq : s.stack = above ++ .group n :: below) (above_isSome : ∀ p ∈ above, p.token?.isSome)
      (nested : below ≠ []) (bare : ∀ f rest, below ≠ .function f :: rest) : Stop s .comma .strayComma
  | emptyBeforeClosing (empty : s.last = some .comma) : Stop s .closing .emptyArgument
  | unmatchedClosing (filled : s.last ≠ some .comma) (closed : ∀ p ∈ s.stack, p.token?.isSome) :
      Stop s .closing .unmatchedParenthesis
  | tooFewArguments {above below : List Pending} {n : Nat} {f : Function} (filled : s.last ≠ some .comma)
      (stack_eq : s.stack = above ++ .group n :: .function f :: below)
      (above_isSome : ∀ p ∈ above, p.token?.isSome) (few : n < f.arity) :
      Stop s .closing (.tooFewArguments f n)
  | missingOperand {op : Operator} (prefixed : expectsOperand s.last = true) (not_minus : op.symbol ≠ '-')
      (not_plus : op.symbol ≠ '+') : Stop s (.operator op) .operandImbalance

variable {s : Conversion} {fault : Fault}

private theorem unwind_eq_none_iff {output : List Token} {stack : List Pending} :
    unwind output stack = none ↔ ∀ p ∈ stack, p.token?.isSome := by
  induction stack generalizing output with
  | nil => simp [unwind]
  | cons p stack ih =>
    cases p with
    | operator op => simp [unwind, ih, Pending.token?]
    | function f => simp [unwind, ih, Pending.token?]
    | group n => simp [unwind, Pending.token?]

/-! ### One token -/

private theorem stop_of_readComma (h : s.readComma = .error fault) : Stop s .comma fault := by
  unfold readComma at h
  split at h
  · rename_i hempty
    cases h
    exact .emptyBeforeComma hempty
  · rename_i hfilled
    have hfilled := Bool.eq_false_iff.2 hfilled
    split at h
    · rename_i hnone
      cases h
      exact .outermostComma hfilled (unwind_eq_none_iff.1 hnone)
    · rename_i n below output hunwind
      obtain ⟨above, hstack, habove, rfl⟩ := exists_of_unwind hunwind
      split at h
      · cases h
      · cases h
      · rename_i hnested hbare
        cases h
        exact .strayComma hfilled hstack habove hnested hbare

private theorem stop_of_readClosing (h : s.readClosing = .error fault) : Stop s .closing fault := by
  unfold readClosing at h
  split at h
  · rename_i hempty
    cases h
    exact .emptyBeforeClosing hempty
  · rename_i hfilled
    split at h
    · rename_i hnone
      cases h
      exact .unmatchedClosing hfilled (unwind_eq_none_iff.1 hnone)
    · rename_i n f below output hunwind
      obtain ⟨above, hstack, habove, rfl⟩ := exists_of_unwind hunwind
      split at h
      · rename_i hfew
        cases h
        exact .tooFewArguments hfilled hstack habove hfew
      · cases h
    · cases h

private theorem stop_of_readOperator {op : Operator} (h : s.readOperator op = .error fault) :
    Stop s (.operator op) fault := by
  unfold readOperator at h
  simp only at h
  split at h
  · rename_i hprefixed
    split at h
    · cases h
    · rename_i hminus
      split at h
      · cases h
      · rename_i hplus
        cases h
        exact .missingOperand hprefixed hminus hplus
  · cases h

theorem Stop.read_eq {t : Token} (h : Stop s t fault) : s.read t = .error fault := by
  cases h with
  | emptyBeforeComma hempty =>
    change s.readComma = _
    rw [readComma, if_pos hempty]
  | outermostComma hfilled hclosed =>
    change s.readComma = _
    rw [readComma, if_neg (Bool.eq_false_iff.1 hfilled), unwind_eq_none_iff.2 hclosed]
  | @strayComma above below n hfilled hstack habove hnested hbare =>
    change s.readComma = _
    rw [readComma, if_neg (Bool.eq_false_iff.1 hfilled), hstack, unwind_append habove]
    cases below with
    | nil => exact absurd rfl hnested
    | cons p below =>
      cases p with
      | function f => exact absurd rfl (hbare f below)
      | operator op => rfl
      | group m => rfl
  | emptyBeforeClosing hempty =>
    change s.readClosing = _
    rw [readClosing, if_pos hempty]
  | unmatchedClosing hfilled hclosed =>
    change s.readClosing = _
    rw [readClosing, if_neg hfilled, unwind_eq_none_iff.2 hclosed]
  | tooFewArguments hfilled hstack habove hfew =>
    change s.readClosing = _
    rw [readClosing, if_neg hfilled, hstack, unwind_append habove]
    exact if_pos hfew
  | @missingOperand op hprefixed hminus hplus =>
    change s.readOperator op = _
    rw [readOperator]
    simp only
    rw [if_pos hprefixed, if_neg hminus, if_neg hplus]

/-- A token cannot be read exactly in the listed ways. -/
theorem read_eq_error_iff {t : Token} : s.read t = .error fault ↔ Stop s t fault := by
  refine ⟨fun h => ?_, Stop.read_eq⟩
  cases t with
  | operator op => exact stop_of_readOperator h
  | closing => exact stop_of_readClosing h
  | comma => exact stop_of_readComma h
  | _ => cases h

/-! ### All tokens -/

/-- At the end only an open parenthesis is a fault. -/
theorem finish_eq_error_iff :
    s.finish = .error fault ↔ fault = .unmatchedParenthesis ∧ ¬ ∀ p ∈ s.stack, p.token?.isSome := by
  have hdrain : ∀ {stack : List Pending} {output : List Token}, drain output stack = .error fault ↔
      fault = .unmatchedParenthesis ∧ ¬ ∀ p ∈ stack, p.token?.isSome := by
    intro stack
    induction stack with
    | nil => simp [drain]
    | cons p stack ih =>
      intro output
      cases p with
      | operator op => simp [drain, ih, Pending.token?]
      | function f => simp [drain, ih, Pending.token?]
      | group n =>
        rw [drain, Except.error.injEq, eq_comm]
        exact (and_iff_left fun h => absurd (h (.group n) List.mem_cons_self) Bool.false_ne_true).symm
  rw [← @hdrain s.stack s.output, finish]
  cases drain s.output s.stack with
  | error e => simp [Except.map]
  | ok output => simp [Except.map]

end Conversion

/-- A run that fails stops at an element after which nothing is read. -/
theorem foldlM_eq_error_iff {α β : Type} {f : β → α → Except Fault β} {as : List α} {b : β} {fault : Fault} :
    as.foldlM f b = .error fault ↔
      ∃ pre a post b', as = pre ++ a :: post ∧ pre.foldlM f b = .ok b' ∧ f b' a = .error fault := by
  constructor
  · intro h
    induction as generalizing b with
    | nil => cases h
    | cons a as ih =>
      rw [List.foldlM_cons] at h
      cases hstep : f b a with
      | error e =>
        rw [hstep] at h
        cases h
        exact ⟨[], a, as, b, rfl, rfl, hstep⟩
      | ok next =>
        rw [hstep] at h
        obtain ⟨pre, c, post, b', rfl, hpre, hc⟩ := ih h
        refine ⟨a :: pre, c, post, b', rfl, ?_, hc⟩
        rw [List.foldlM_cons, hstep]
        exact hpre
  · rintro ⟨pre, a, post, b', rfl, hpre, ha⟩
    rw [List.foldlM_append, hpre]
    change (a :: post).foldlM f b' = .error fault
    rw [List.foldlM_cons, ha]
    rfl

open Conversion in
/-- The conversion fails exactly if it stops at a token, or if a parenthesis is open at the end. -/
theorem toPostfix_eq_error_iff {ts : List Token} {fault : Fault} :
    toPostfix ts = .error fault ↔
      (∃ pre t post s, ts = pre ++ t :: post ∧ pre.foldlM read start = .ok s ∧ Stop s t fault) ∨
        ∃ s, ts.foldlM read start = .ok s ∧ s.finish = .error fault := by
  rw [toPostfix]
  cases hrun : ts.foldlM read start with
  | error e =>
    obtain ⟨pre, t, post, s, rfl, hpre, ht⟩ := foldlM_eq_error_iff.1 hrun
    constructor
    · intro h
      cases h
      exact .inl ⟨pre, t, post, s, rfl, hpre, read_eq_error_iff.1 ht⟩
    · rintro (⟨pre', t', post', s', hsplit, hpre', hstop⟩ | ⟨s', hs', -⟩)
      · have herror := foldlM_eq_error_iff.2 ⟨pre', t', post', s', hsplit, hpre', hstop.read_eq⟩
        rw [hrun] at herror
        cases herror
        rfl
      · cases hs'
  | ok s =>
    constructor
    · exact fun h => .inr ⟨s, rfl, h⟩
    · rintro (⟨pre, t, post, s', hsplit, hpre, hstop⟩ | ⟨s', hs', hfinish⟩)
      · have herror := foldlM_eq_error_iff.2 ⟨pre, t, post, s', hsplit, hpre, hstop.read_eq⟩
        rw [hrun] at herror
        cases herror
      · cases hs'
        exact hfinish

end DeskCalc
