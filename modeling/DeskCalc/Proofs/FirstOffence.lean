import DeskCalc.Proofs.StackTop

/-!
# The rules that an expression can break

`Breaks` lists the rules for commas, closing parentheses and operators, from the tokens before them alone: which
parenthesis encloses them, whose call it belongs to, how many commas stand directly in it.  The conversion knows
nothing of positions, and yet it fails exactly at the first token that breaks a rule, or at the end if a parenthesis
is still open (`toPostfix_eq_error_iff_offence`).
-/

namespace DeskCalc

/-- Nothing has been written of the argument that the tokens end in. -/
def EndsInEmptyArgument (pre : List Token) : Prop :=
  pre.getLast? = some .opening ∨ pre.getLast? = some .comma

/-- The tokens end where an operand is expected. -/
def EndsBeforeOperand (pre : List Token) : Prop :=
  pre = [] ∨ pre.getLast? = some .opening ∨ pre.getLast? = some .comma ∨ ∃ op, pre.getLast? = some (.operator op)

/-- The rule that a token breaks after the tokens `pre`. -/
inductive Breaks (pre : List Token) : Token → Fault → Prop where
  | emptyBeforeComma (empty : EndsInEmptyArgument pre) : Breaks pre .comma .emptyArgument
  | outermostComma (filled : ¬ EndsInEmptyArgument pre) (outermost : ¬ ∃ before inside, EnclosedIn pre before inside) :
      Breaks pre .comma .unmatchedParenthesis
  | strayComma {before inside : List Token} (filled : ¬ EndsInEmptyArgument pre)
      (group : EnclosedIn pre before inside) (bare : ∀ f, before.getLast? ≠ some (.function f))
      (nested : ¬ ∀ t ∈ before, t = .operator .add) : Breaks pre .comma .strayComma
  | emptyBeforeClosing (empty : pre.getLast? = some .comma) : Breaks pre .closing .emptyArgument
  | unmatchedClosing (filled : pre.getLast? ≠ some .comma)
      (outermost : ¬ ∃ before inside, EnclosedIn pre before inside) : Breaks pre .closing .unmatchedParenthesis
  | tooFewArguments {before inside : List Token} {f : Function} (filled : pre.getLast? ≠ some .comma)
      (group : EnclosedIn pre before inside) (call : before.getLast? = some (.function f))
      (few : commasAt 0 inside + 1 < f.arity) : Breaks pre .closing (.tooFewArguments f (commasAt 0 inside + 1))
  | missingOperand {op : Operator} (infixOnly : op = .multiply ∨ op = .divide ∨ op = .power)
      (unended : EndsBeforeOperand pre) : Breaks pre (.operator op) .operandImbalance

/-- No token breaks a rule. -/
def Inoffensive (ts : List Token) : Prop :=
  ∀ pre t post, ts = pre ++ t :: post → ∀ fault, ¬ Breaks pre t fault

/-- The first token that breaks a rule is the fault; if there is none, a parenthesis that is open at the end is. -/
inductive Offence (ts : List Token) : Fault → Prop where
  | token {pre post : List Token} {t : Token} {fault : Fault} (split : ts = pre ++ t :: post)
      (inoffensive : Inoffensive pre) (breaks : Breaks pre t fault) : Offence ts fault
  | unclosed {before inside : List Token} (inoffensive : Inoffensive ts) (group : EnclosedIn ts before inside) :
      Offence ts .unmatchedParenthesis

namespace Conversion

variable {s : Conversion} {pre post : List Token} {t : Token} {fault : Fault}

/-! ### The end of the tokens before -/

private theorem last_eq_getLast? (hrun : pre.foldlM read start = .ok s) : s.last = pre.getLast? := by
  rw [last_of_run hrun]
  exact Option.or_none

private theorem argumentIsEmpty_iff (hrun : pre.foldlM read start = .ok s) :
    argumentIsEmpty s.last = true ↔ EndsInEmptyArgument pre := by
  rw [last_eq_getLast? hrun, EndsInEmptyArgument]
  cases pre.getLast? with
  | none => simp [argumentIsEmpty]
  | some u => cases u <;> simp [argumentIsEmpty]

private theorem expectsOperand_iff (hrun : pre.foldlM read start = .ok s) :
    expectsOperand s.last = true ↔ EndsBeforeOperand pre := by
  rw [last_eq_getLast? hrun, EndsBeforeOperand]
  cases hlast : pre.getLast? with
  | none => simp [expectsOperand, List.getLast?_eq_none_iff.1 hlast]
  | some u =>
    have hne : pre ≠ [] := by
      rintro rfl
      cases hlast
    cases u <;> simp [expectsOperand, hne]

/-! ### The group around the token -/

/-- Below the parenthesis of a group waits what waited before the group: its function if it is a call, and nothing if
it is a bare group after plus signs only. -/
private theorem exists_stack_of_group {before inside : List Token} (hspaced : WellSpaced none (pre ++ post))
    (hrun : pre.foldlM read start = .ok s) (hgroup : EnclosedIn pre before inside) :
    ∃ above below, s.stack = above ++ .group (commasAt 0 inside + 1) :: below ∧ (∀ p ∈ above, p.token?.isSome) ∧
      (∀ f, below.head? = some (.function f) ↔ before.getLast? = some (.function f)) ∧
      (below = [] ↔ ∀ t ∈ before, t = .operator .add) := by
  obtain ⟨outer, above, houter, hstack, habove⟩ := exists_stack_of_enclosedIn hgroup hrun
  have hspaced : WellSpaced none (before ++ .opening :: (inside ++ post)) := by
    rw [hgroup.eq_append] at hspaced
    simpa using hspaced
  have hcalls : Calls outer := Calls.start.of_run hspaced houter
  have hfollows : Token.opening.Follows outer.last := by
    rw [last_of_run houter]
    exact hspaced.append.1
  refine ⟨above, outer.stack, hstack, habove, fun f => ?_, stack_eq_nil_iff houter (hfollows.ended_eq rfl)⟩
  rw [hcalls.head?_stack f, last_eq_getLast? houter]

/-! ### One token -/

theorem Stop.breaks (hspaced : WellSpaced none (pre ++ post)) (hrun : pre.foldlM read start = .ok s)
    (h : Stop s t fault) : Breaks pre t fault := by
  have hlast := last_eq_getLast? hrun
  have hempty := argumentIsEmpty_iff hrun
  have hgroup : ∀ {above below : List Pending} {n : Nat}, s.stack = above ++ .group n :: below →
      (∀ p ∈ above, p.token?.isSome) → ∃ before inside, EnclosedIn pre before inside ∧ n = commasAt 0 inside + 1 ∧
        (∀ f, below.head? = some (.function f) ↔ before.getLast? = some (.function f)) ∧
        (below = [] ↔ ∀ t ∈ before, t = .operator .add) := by
    intro above below n hstack habove
    by_cases hnone : ∃ before inside, EnclosedIn pre before inside
    · obtain ⟨before, inside, hencl⟩ := hnone
      obtain ⟨above', below', hstack', habove', hcall, hnil⟩ := exists_stack_of_group hspaced hrun hencl
      obtain ⟨rfl, rfl⟩ := group_unique habove habove' (hstack.symm.trans hstack')
      exact ⟨before, inside, hencl, rfl, hcall, hnil⟩
    · have hall := (forall_isSome_iff hrun).2 hnone
      exact absurd (hall (.group n) (by simp [hstack])) Bool.false_ne_true
  cases h with
  | emptyBeforeComma h => exact .emptyBeforeComma (hempty.1 h)
  | outermostComma hfilled hclosed =>
    refine .outermostComma (fun h => ?_) ((forall_isSome_iff hrun).1 hclosed)
    rw [hempty.2 h] at hfilled
    cases hfilled
  | strayComma hfilled hstack habove hnested hbare =>
    obtain ⟨before, inside, hencl, -, hcall, hnil⟩ := hgroup hstack habove
    refine .strayComma (fun h => ?_) hencl (fun f hf => ?_) (fun hall => hnested (hnil.2 hall))
    · rw [hempty.2 h] at hfilled
      cases hfilled
    · obtain ⟨rest, hrest⟩ := List.head?_eq_some_iff.1 ((hcall f).2 hf)
      exact hbare f rest hrest
  | emptyBeforeClosing h => exact .emptyBeforeClosing (hlast ▸ h)
  | unmatchedClosing hfilled hclosed => exact .unmatchedClosing (hlast ▸ hfilled) ((forall_isSome_iff hrun).1 hclosed)
  | @tooFewArguments above below n f hfilled hstack habove hfew =>
    obtain ⟨before, inside, hencl, rfl, hcall, -⟩ := hgroup hstack habove
    exact .tooFewArguments (hlast ▸ hfilled) hencl ((hcall f).1 rfl) hfew
  | @missingOperand op hprefixed hminus hplus =>
    refine .missingOperand ?_ ((expectsOperand_iff hrun).1 hprefixed)
    cases op with
    | multiply => exact .inl rfl
    | divide => exact .inr (.inl rfl)
    | power => exact .inr (.inr rfl)
    | add => exact absurd rfl hplus
    | subtract => exact absurd rfl hminus
    | negate => exact absurd rfl hminus

end Conversion

theorem Breaks.stop {s : Conversion} {pre post : List Token} {t : Token} {fault : Fault}
    (hspaced : WellSpaced none (pre ++ post)) (hrun : pre.foldlM Conversion.read .start = .ok s)
    (h : Breaks pre t fault) : Conversion.Stop s t fault := by
  have hlast := Conversion.last_eq_getLast? hrun
  have hempty := Conversion.argumentIsEmpty_iff hrun
  cases h with
  | emptyBeforeComma h => exact .emptyBeforeComma (hempty.2 h)
  | outermostComma hfilled houter =>
    refine .outermostComma ?_ ((Conversion.forall_isSome_iff hrun).2 houter)
    exact Bool.eq_false_iff.2 fun h => hfilled (hempty.1 h)
  | @strayComma before inside hfilled hencl hbare hnested =>
    obtain ⟨above, below, hstack, habove, hcall, hnil⟩ := Conversion.exists_stack_of_group hspaced hrun hencl
    refine .strayComma ?_ hstack habove (fun h => hnested (hnil.1 h)) (fun f rest h => ?_)
    · exact Bool.eq_false_iff.2 fun h => hfilled (hempty.1 h)
    · exact hbare f ((hcall f).1 (by rw [h]; rfl))
  | emptyBeforeClosing h => exact .emptyBeforeClosing (hlast ▸ h)
  | unmatchedClosing hfilled houter => exact .unmatchedClosing (hlast ▸ hfilled) ((Conversion.forall_isSome_iff hrun).2 houter)
  | @tooFewArguments before inside f hfilled hencl hf hfew =>
    obtain ⟨above, below, hstack, habove, hcall, -⟩ := Conversion.exists_stack_of_group hspaced hrun hencl
    obtain ⟨rest, rfl⟩ := List.head?_eq_some_iff.1 ((hcall f).2 hf)
    exact .tooFewArguments (hlast ▸ hfilled) hstack habove hfew
  | @missingOperand op hop hunended =>
    refine .missingOperand ((Conversion.expectsOperand_iff hrun).2 hunended) ?_ ?_
    · rcases hop with rfl | rfl | rfl <;> decide
    · rcases hop with rfl | rfl | rfl <;> decide

/-! ### All tokens -/

section Offence

open Conversion

variable {pre post : List Token}

/-- The tokens before any place can be read exactly if none of them breaks a rule. -/
private theorem inoffensive_iff (hspaced : WellSpaced none (pre ++ post)) :
    Inoffensive pre ↔ ∃ s, pre.foldlM read start = .ok s := by
  constructor
  · intro hinoffensive
    cases hrun : pre.foldlM read start with
    | ok s => exact ⟨s, rfl⟩
    | error fault =>
      obtain ⟨us, t, vs, s, rfl, hus, hread⟩ := foldlM_eq_error_iff.1 hrun
      rw [List.append_assoc] at hspaced
      exact absurd ((read_eq_error_iff.1 hread).breaks hspaced hus) (hinoffensive us t vs rfl fault)
  · rintro ⟨s, hrun⟩ us t vs rfl fault hbreaks
    rw [List.append_assoc] at hspaced
    obtain ⟨su, hus, hrest⟩ := exists_of_foldlM_append hrun
    obtain ⟨next, hread, -⟩ := exists_of_foldlM_cons hrest
    rw [(hbreaks.stop hspaced hus).read_eq] at hread
    cases hread

/-- The conversion of the lexer's tokens fails exactly at the first token that breaks a rule, or at the end if a
parenthesis is still open; and with the code of that rule. -/
theorem toPostfix_eq_error_iff_offence {ts : List Token} (hspaced : WellSpaced none ts) :
    (∀ fault, toPostfix ts = .error fault ↔ Offence ts fault) ∧
      Fault.emptyArgument.code = "3104" ∧ Fault.unmatchedParenthesis.code = "3100" ∧ Fault.strayComma.code = "3101" ∧
      Fault.operandImbalance.code = "3200" ∧
      ∀ f n, (Fault.tooFewArguments f n).code = "3201" ∧
        (Fault.tooFewArguments f n).message =
          Text.ofString s!"Too few arguments ({n}) for function {f.name} (requires {f.arity})!" := by
  refine ⟨fun fault => ⟨fun h => ?_, fun h => ?_⟩, rfl, rfl, rfl, rfl, fun f n => ⟨rfl, rfl⟩⟩
  · rcases toPostfix_eq_error_iff.1 h with ⟨pre, t, post, s, rfl, hrun, hstop⟩ | ⟨s, hrun, hfinish⟩
    · exact .token rfl ((inoffensive_iff hspaced).2 ⟨s, hrun⟩) (hstop.breaks hspaced hrun)
    · obtain ⟨rfl, hopen⟩ := finish_eq_error_iff.1 hfinish
      rw [forall_isSome_iff hrun, not_not] at hopen
      obtain ⟨before, inside, hgroup⟩ := hopen
      rw [← List.append_nil ts] at hspaced
      exact .unclosed ((inoffensive_iff hspaced).2 ⟨s, hrun⟩) hgroup
  · refine toPostfix_eq_error_iff.2 ?_
    cases h with
    | @token pre post t fault hsplit hinoffensive hbreaks =>
      subst hsplit
      obtain ⟨s, hrun⟩ := (inoffensive_iff hspaced).1 hinoffensive
      exact .inl ⟨pre, t, post, s, rfl, hrun, hbreaks.stop hspaced hrun⟩
    | @unclosed before inside hinoffensive hgroup =>
      rw [← List.append_nil ts] at hspaced
      obtain ⟨s, hrun⟩ := (inoffensive_iff hspaced).1 hinoffensive
      refine .inr ⟨s, hrun, finish_eq_error_iff.2 ⟨rfl, ?_⟩⟩
      rw [forall_isSome_iff hrun, not_not]
      exact ⟨before, inside, hgroup⟩

open Token in
/-- The comma in the group after a plus sign is let through, so the call with one argument is the first offence. -/
theorem offence_after_plus :
    WellSpaced none [operator .add, opening, number (.ofNat 1), comma, number (.ofNat 2), closing, operator .multiply,
        function .max, opening, number (.ofNat 3), closing] ∧
      Offence [operator .add, opening, number (.ofNat 1), comma, number (.ofNat 2), closing, operator .multiply,
        function .max, opening, number (.ofNat 3), closing] (.tooFewArguments .max 1) := by
  have hspaced : WellSpaced none [operator .add, opening, number (.ofNat 1), comma, number (.ofNat 2), closing,
      operator .multiply, function .max, opening, number (.ofNat 3), closing] :=
    @wellSpaced_of_lex .absent "+(1,2)*max(3)".toList _ (by decide +kernel)
  exact ⟨hspaced, ((toPostfix_eq_error_iff_offence hspaced).1 _).1 (by decide +kernel)⟩

end Offence

end DeskCalc
