import DeskCalc.Proofs.ConversionStep

/-!
# What the conversion keeps

Whatever the tokens are, the conversion to postfix order loses none of them, makes none up and does not change the
order of the operands (`toPostfix_conserves`).  Only parentheses and commas vanish, and of the signs a plus, while a
minus becomes the sign change (`Token.symbolsAfter`).

Between two tokens this is said about the output and the stack together, as if everything that waits were sent out
(`Conversion.Step.release_perm`).
-/

namespace DeskCalc

namespace Token

/-- Numbers, previous answers and constants. -/
def isOperand (t : Token) : Bool :=
  t.value?.isSome

/-- Operators and functions. -/
def isSymbol : Token → Bool
  | operator _ | function _ => true
  | _ => false

/-- The operators and functions that a token after `last` stands for.  A sign is a minus or plus where an operand is
expected. -/
def symbolsAfter (last : Option Token) : Token → List Token
  | operator op =>
    if Conversion.expectsOperand last then
      if op.symbol = '-' then [operator .negate] else if op.symbol = '+' then [] else [operator op]
    else [operator op]
  | function f => [function f]
  | _ => []

private theorem isSymbol_of_mem_symbolsAfter {last : Option Token} {t u : Token} (h : u ∈ t.symbolsAfter last) :
    u.isSymbol = true := by
  cases t with
  | operator op =>
    rw [symbolsAfter] at h
    split at h
    · split at h
      · rw [List.mem_singleton.1 h, isSymbol]
      · split at h
        · cases h
        · rw [List.mem_singleton.1 h, isSymbol]
    · rw [List.mem_singleton.1 h, isSymbol]
  | function f => rw [List.mem_singleton.1 h, isSymbol]
  | _ => cases h

private theorem filter_isOperand_cons (t : Token) (ts : List Token) :
    (t :: ts).filter isOperand = [t].filter isOperand ++ ts.filter isOperand :=
  List.filter_append [t] ts

private theorem isOperand_of_isSymbol {t : Token} (h : t.isSymbol = true) : t.isOperand = false := by
  cases t <;> first | rfl | cases h

end Token

/-- The operators and functions that the tokens after `last` stand for. -/
def symbolsFrom (last : Option Token) : List Token → List Token
  | [] => []
  | t :: ts => t.symbolsAfter last ++ symbolsFrom (some t) ts

private theorem isSymbol_of_mem_symbolsFrom {last : Option Token} {ts : List Token} {u : Token}
    (h : u ∈ symbolsFrom last ts) : u.isSymbol = true := by
  induction ts generalizing last with
  | nil => cases h
  | cons t ts ih => exact (List.mem_append.1 h).elim Token.isSymbol_of_mem_symbolsAfter ih

namespace Conversion

variable {s s' : Conversion}

/-! ### Sending everything out -/

private theorem release_cons_perm (ps : List Pending) (t : Token) (output : List Token) :
    (release ps (t :: output)).Perm (t :: release ps output) :=
  List.perm_middle

private theorem filter_release (ps : List Pending) (output : List Token) :
    (release ps output).filter Token.isOperand = output.filter Token.isOperand := by
  induction ps generalizing output with
  | nil => rfl
  | cons p ps ih =>
    rw [release_cons, ih]
    cases p <;> rfl

theorem Step.release_perm {t : Token} (h : Step s t s') :
    (release s'.stack s'.output).Perm
      ([t].filter Token.isOperand ++ t.symbolsAfter s.last ++ release s.stack s.output) := by
  cases h with
  | operand hvalue =>
    have hsymbols : t.symbolsAfter s.last = [] := by
      cases t <;> first | rfl | cases hvalue
    have hoperand : t.isOperand = true := hvalue
    rw [hsymbols, List.filter_cons_of_pos hoperand]
    exact release_cons_perm s.stack t s.output
  | function f =>
    rw [release_cons]
    exact release_cons_perm s.stack (.function f) s.output
  | opening =>
    rw [release_cons]
    exact .refl _
  | comma _ hstack _ _ =>
    rw [hstack, release_append, release_cons, release_cons]
    exact .refl _
  | closeCall _ hstack _ _ =>
    rw [hstack, release_append, release_cons, release_cons]
    exact .refl _
  | closeGroup _ hstack _ _ =>
    rw [hstack, release_append, release_cons]
    exact .refl _
  | minus hprefixed hsymbol =>
    rw [release_cons, Token.symbolsAfter, if_pos hprefixed, if_pos hsymbol]
    exact release_cons_perm s.stack (.operator .negate) s.output
  | plus hprefixed hsymbol =>
    rw [Token.symbolsAfter, if_pos hprefixed, if_neg (by rw [hsymbol]; decide), if_pos hsymbol]
    exact .refl _
  | @binary op hinfixed =>
    have hsplit := release_append (s.stack.takeWhile (yieldsTo op)) (s.stack.dropWhile (yieldsTo op)) s.output
    rw [List.takeWhile_append_dropWhile] at hsplit
    rw [Token.symbolsAfter, if_neg (Bool.eq_false_iff.1 hinfixed), hsplit, release_cons]
    exact release_cons_perm _ (.operator op) _

private theorem Step.filter_output {t : Token} (h : Step s t s') :
    s'.output.filter Token.isOperand = [t].filter Token.isOperand ++ s.output.filter Token.isOperand := by
  cases h with
  | operand hvalue =>
    have hoperand : t.isOperand = true := hvalue
    rw [List.filter_cons_of_pos hoperand, List.filter_cons_of_pos hoperand]
    rfl
  | comma _ _ _ _ => exact filter_release _ _
  | closeCall _ _ _ _ => exact filter_release _ _
  | closeGroup _ _ _ _ => exact filter_release _ _
  | binary _ => exact filter_release _ _
  | _ => rfl

/-! ### All tokens -/

private theorem release_perm_of_run {ts : List Token} (h : ts.foldlM read s = .ok s') :
    (release s'.stack s'.output).Perm
      (ts.filter Token.isOperand ++ symbolsFrom s.last ts ++ release s.stack s.output) := by
  induction ts generalizing s with
  | nil =>
    cases h
    exact .refl _
  | cons t ts ih =>
    obtain ⟨next, hread, hrun⟩ := exists_of_foldlM_cons h
    have hstep := step_of_read hread
    have hrest := ih hrun
    rw [hstep.last_eq] at hrest
    -- what the first token adds is moved over what the others add
    have hfirst := hstep.release_perm.append_left (ts.filter Token.isOperand ++ symbolsFrom (some t) ts)
    refine (hrest.trans hfirst).trans (List.perm_iff_count.2 fun u => ?_)
    rw [Token.filter_isOperand_cons t ts, symbolsFrom]
    simp only [List.count_append]
    omega

private theorem filter_output_of_run {ts : List Token} (h : ts.foldlM read s = .ok s') :
    s'.output.filter Token.isOperand = (ts.filter Token.isOperand).reverse ++ s.output.filter Token.isOperand := by
  induction ts generalizing s with
  | nil =>
    cases h
    rfl
  | cons t ts ih =>
    obtain ⟨next, hread, hrun⟩ := exists_of_foldlM_cons h
    have hsingle : ([t].filter Token.isOperand).reverse = [t].filter Token.isOperand := by
      cases htoken : t.isOperand <;> simp [htoken]
    rw [ih hrun, (step_of_read hread).filter_output, Token.filter_isOperand_cons t ts, List.reverse_append, hsingle,
      List.append_assoc]

end Conversion

/-- The conversion puts out no parenthesis and no comma, the operands in their order, and the operators and functions
that the tokens stand for, each as often as it is there. -/
theorem toPostfix_conserves {ts out : List Token} (h : toPostfix ts = .ok out) :
    (∀ t ∈ out, t ≠ .opening ∧ t ≠ .closing ∧ t ≠ .comma) ∧
      out.filter Token.isOperand = ts.filter Token.isOperand ∧
      (out.filter Token.isSymbol).Perm (symbolsFrom none ts) := by
  obtain ⟨s, hrun, hfinish⟩ := exists_of_bind_eq_ok h
  obtain ⟨-, rfl⟩ := Conversion.finish_eq_ok_iff.1 hfinish
  have hperm : (Conversion.release s.stack s.output).reverse.Perm
      (ts.filter Token.isOperand ++ symbolsFrom none ts) := by
    have hrelease := Conversion.release_perm_of_run hrun
    rw [Conversion.start, Conversion.release_nil, List.append_nil] at hrelease
    exact (List.reverse_perm _).trans hrelease
  refine ⟨fun t ht => ?_, ?_, ?_⟩
  · rcases List.mem_append.1 (hperm.mem_iff.1 ht) with hoperand | hsymbol
    · have hvalue := (List.mem_filter.1 hoperand).2
      refine ⟨?_, ?_, ?_⟩ <;> rintro rfl <;> cases hvalue
    · have hkind := isSymbol_of_mem_symbolsFrom hsymbol
      refine ⟨?_, ?_, ?_⟩ <;> rintro rfl <;> cases hkind
  · rw [List.filter_reverse, Conversion.filter_release, Conversion.filter_output_of_run hrun]
    simp [Conversion.start]
  · have hoperands : (ts.filter Token.isOperand).filter Token.isSymbol = [] := by
      refine List.filter_eq_nil_iff.2 fun t ht hkind => ?_
      have hvalue := (List.mem_filter.1 ht).2
      rw [Token.isOperand_of_isSymbol hkind] at hvalue
      cases hvalue
    have hsymbols : (symbolsFrom none ts).filter Token.isSymbol = symbolsFrom none ts :=
      List.filter_eq_self.2 fun t ht => isSymbol_of_mem_symbolsFrom ht
    have hfilter := hperm.filter Token.isSymbol
    rwa [List.filter_append, hoperands, hsymbols, List.nil_append] at hfilter

/-- Signs, a function without parentheses, operands side by side and a sign change among the tokens:
`- 1 2 sin ^ ( + 3 * - 1 ) negate`. -/
theorem toPostfix_conserves_unlexed :
    let one := Token.number Kernel.one
    let two := Token.number (.ofNat 2)
    let three := Token.number (.ofNat 3)
    let ts : List Token := [.operator .subtract, one, two, .function .sin, .operator .power, .opening, .operator .add,
      three, .operator .multiply, .operator .subtract, one, .closing, .operator .negate]
    let out : List Token := [one, two, three, one, .operator .negate, .operator .multiply, .operator .negate,
      .operator .power, .function .sin, .operator .negate]
    toPostfix ts = .ok out ∧ (∀ t ∈ out, t ≠ .opening ∧ t ≠ .closing ∧ t ≠ .comma) ∧
      out.filter Token.isOperand = ts.filter Token.isOperand ∧
      (out.filter Token.isSymbol).Perm (symbolsFrom none ts) := by
  intro one two three ts out
  have h : toPostfix ts = .ok out := rfl
  exact ⟨h, toPostfix_conserves h⟩

end DeskCalc
