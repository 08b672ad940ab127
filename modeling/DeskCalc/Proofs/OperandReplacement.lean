import DeskCalc.Proofs.StackTop

/-!
# A group in place of an operand

A token that stands for the number `v` may be replaced by any group with the value `v`.  This holds of all tokens
of the lexer that are converted, derivable or not: the conversion goes through the same stacks (`Mirrors`), its output
has the postorder of the group in place of the operand (`toPostfix_replaceOperand`), and the stack machine goes on
with the same numbers (`evalPostfix_replaceOperand`).
-/

namespace DeskCalc

/-- The previous answer `v` replaced by other tokens. -/
def Token.replaceOperand (v : Double) (ts : List Token) : Token → List Token
  | .previous x => if x = v then ts else [.previous x]
  | t => [t]

theorem Token.replaceOperand_of_ne {v : Double} (ts : List Token) {t : Token} (h : t ≠ .previous v) :
    t.replaceOperand v ts = [t] := by
  cases t with
  | previous x =>
    rw [replaceOperand, if_neg]
    rintro rfl
    exact h rfl
  | _ => rfl

theorem Token.replaceOperand_previous (v : Double) (ts : List Token) : (previous v).replaceOperand v ts = ts :=
  if_pos rfl

namespace Conversion

/-- The output, latest first, with the postfix tokens `post` in place of the operand `v`. -/
def replacedOutput (v : Double) (post output : List Token) : List Token :=
  output.flatMap fun t => (t.replaceOperand v post).reverse

private theorem replacedOutput_cons_of_ne {v : Double} (post : List Token) {t : Token} (h : t ≠ .previous v)
    (output : List Token) : replacedOutput v post (t :: output) = t :: replacedOutput v post output := by
  rw [replacedOutput, List.flatMap_cons, Token.replaceOperand_of_ne post h]
  rfl

/-- What waits on the stack is no operand. -/
private theorem replacedOutput_release (v : Double) (post : List Token) (ps : List Pending) (output : List Token) :
    replacedOutput v post (release ps output) = release ps (replacedOutput v post output) := by
  induction ps generalizing output with
  | nil => rfl
  | cons p ps ih =>
    rw [release_cons, release_cons, ih]
    cases p with
    | operator op => exact congrArg _ (replacedOutput_cons_of_ne post (by simp) output)
    | function f => exact congrArg _ (replacedOutput_cons_of_ne post (by simp) output)
    | group n => rfl

/-- The conversion `s'` is where `s` is, with the postfix tokens `post` in place of the operand `v`.  Which token ended
an operand does not matter. -/
structure Mirrors (v : Double) (post : List Token) (s s' : Conversion) : Prop where
  stack_eq : s'.stack = s.stack
  output_eq : s'.output = replacedOutput v post s.output
  last : s'.last = s.last ∨ ended s.last = true ∧ ended s'.last = true

section Mirrors

variable {v : Double} {post : List Token} {s s' s₁ : Conversion} {t : Token}

private theorem of_ended {last : Option Token} (h : ended last = true) :
    argumentIsEmpty last = false ∧ last ≠ some .comma ∧ expectsOperand last = false := by
  cases last with
  | none => cases h
  | some u => cases u <;> first | exact absurd h Bool.false_ne_true | exact ⟨rfl, by simp, rfl⟩

/-- What is asked about the last token has the same answer for both conversions. -/
private theorem Mirrors.last_iff (h : Mirrors v post s s') :
    argumentIsEmpty s'.last = argumentIsEmpty s.last ∧ (s'.last = some .comma ↔ s.last = some .comma) ∧
      expectsOperand s'.last = expectsOperand s.last := by
  rcases h.last with heq | ⟨hs, hs'⟩
  · rw [heq]
    exact ⟨rfl, Iff.rfl, rfl⟩
  · obtain ⟨hempty, hcomma, hexpects⟩ := of_ended hs
    obtain ⟨hempty', hcomma', hexpects'⟩ := of_ended hs'
    exact ⟨hempty'.trans hempty.symm, iff_of_false hcomma' hcomma, hexpects'.trans hexpects.symm⟩

/-- Every other token is read alike. -/
theorem Mirrors.step (h : Mirrors v post s s') (hstep : Step s t s₁) (ht : t ≠ .previous v) :
    ∃ s₁', Step s' t s₁' ∧ Mirrors v post s₁ s₁' := by
  obtain ⟨hempty, hcomma, hexpects⟩ := h.last_iff
  have hstack := h.stack_eq
  have hrelease : ∀ ps, release ps s'.output = replacedOutput v post (release ps s.output) := by
    intro ps
    rw [h.output_eq, replacedOutput_release]
  cases hstep with
  | operand hvalue =>
    refine ⟨_, .operand hvalue, hstack, ?_, .inl rfl⟩
    change t :: s'.output = replacedOutput v post (t :: s.output)
    rw [replacedOutput_cons_of_ne post ht, h.output_eq]
  | function f => exact ⟨_, .function f, by rw [hstack], h.output_eq, .inl rfl⟩
  | opening => exact ⟨_, .opening, by rw [hstack], h.output_eq, .inl rfl⟩
  | comma hfilled heq habove hbelow =>
    refine ⟨_, .comma (hempty.trans hfilled) (hstack.trans heq) habove hbelow, rfl, hrelease _, .inl rfl⟩
  | closeCall hfilled heq habove henough =>
    refine ⟨_, .closeCall (fun hlast => hfilled (hcomma.1 hlast)) (hstack.trans heq) habove henough, rfl, ?_, .inl rfl⟩
    change _ :: release _ s'.output = _
    rw [hrelease]
    exact (replacedOutput_cons_of_ne post (by simp) _).symm
  | closeGroup hfilled heq habove hbare =>
    refine ⟨_, .closeGroup (fun hlast => hfilled (hcomma.1 hlast)) (hstack.trans heq) habove hbare, rfl, ?_, .inl rfl⟩
    exact hrelease _
  | minus hprefixed hsymbol =>
    exact ⟨_, .minus (hexpects.trans hprefixed) hsymbol, by rw [hstack], h.output_eq, .inl rfl⟩
  | plus hprefixed hsymbol => exact ⟨_, .plus (hexpects.trans hprefixed) hsymbol, hstack, h.output_eq, .inl rfl⟩
  | @binary op hinfixed =>
    refine ⟨_, .binary (hexpects.trans hinfixed), by rw [hstack], ?_, .inl rfl⟩
    rw [hstack]
    exact hrelease _

/-- The tokens of an atom are read in place of the operand. -/
theorem Mirrors.atom (a : Derivation .atom) (h : Mirrors v a.postorder s s') (hcalls : Calls s)
    (hfollows : (Token.previous v).Follows s.last) :
    ∃ s₁', a.yield.foldlM read s' = .ok s₁' ∧
      Mirrors v a.postorder ⟨s.stack, .previous v :: s.output, some (.previous v)⟩ s₁' := by
  have hbare := hfollows.calleeAfter_eq (by simp)
  have hunended := hfollows.ended_eq rfl
  have hexpects : expectsOperand s'.last = true := by
    rw [h.last_iff.2.2, expectsOperand_eq hbare, hunended]
    rfl
  have hfits : Category.atom.FitsOn s'.stack := by
    rw [h.stack_eq]
    cases hstack : s.stack with
    | nil => trivial
    | cons p below =>
      cases p with
      | operator top => exact fun op hop => absurd hop (by cases op <;> decide)
      | function f =>
        have hlast := (hcalls.head?_stack f).1 (by rw [hstack]; rfl)
        rw [calleeAfter_eq_some_iff.2 hlast] at hbare
        cases hbare
      | group n => trivial
  obtain ⟨s₁', hrun, above, hstack, habove, houtput, u, hlast, hends⟩ := reads_derivation a s' hexpects hfits
  -- no operator is as tight as an atom, so none waits above the old stack
  have hnil : above = [] := by
    cases above with
    | nil => rfl
    | cons p above =>
      obtain ⟨op, rfl, hop⟩ := habove p List.mem_cons_self
      exact absurd hop (by cases op <;> decide)
  subst hnil
  refine ⟨s₁', hrun, hstack.trans h.stack_eq, ?_, .inr ⟨rfl, by rw [hlast]; exact hends⟩⟩
  rw [release_nil] at houtput
  rw [houtput, h.output_eq, replacedOutput, replacedOutput, List.flatMap_cons, Token.replaceOperand_previous]

private theorem mirrors_of_run (a : Derivation .atom) {ts : List Token} (h : Mirrors v a.postorder s s')
    (hcalls : Calls s) (hspaced : WellSpaced s.last ts) (hrun : ts.foldlM read s = .ok s₁) :
    ∃ s₁', (ts.flatMap (Token.replaceOperand v a.yield)).foldlM read s' = .ok s₁' ∧
      Mirrors v a.postorder s₁ s₁' := by
  induction ts generalizing s s' with
  | nil =>
    cases hrun
    exact ⟨s', rfl, h⟩
  | cons t ts ih =>
    obtain ⟨next, hread, hrest⟩ := exists_of_foldlM_cons hrun
    have hstep := step_of_read hread
    have hnext : WellSpaced next.last ts := by
      rw [hstep.last_eq]
      exact hspaced.2.2
    have hcalls' := hcalls.step hstep hspaced.1
    by_cases ht : t = .previous v
    · subst ht
      cases hread
      obtain ⟨next', hread', hmirrors⟩ := h.atom a hcalls hspaced.1
      obtain ⟨s₁', hrun', hlast⟩ := ih hmirrors hcalls' hnext hrest
      refine ⟨s₁', ?_, hlast⟩
      rw [List.flatMap_cons, Token.replaceOperand_previous, foldlM_read_append hread', hrun']
    · obtain ⟨next', hstep', hmirrors⟩ := h.step hstep ht
      obtain ⟨s₁', hrun', hlast⟩ := ih hmirrors hcalls' hnext hrest
      refine ⟨s₁', ?_, hlast⟩
      rw [List.flatMap_cons, Token.replaceOperand_of_ne a.yield ht, List.singleton_append,
        foldlM_read_cons hstep'.read_eq, hrun']

end Mirrors

end Conversion

open Conversion in
/-- With an atom in place of an operand, the postfix order has the postorder of the atom in its place. -/
theorem toPostfix_replaceOperand (v : Double) (a : Derivation .atom) {ts post : List Token}
    (hspaced : WellSpaced none ts) (h : toPostfix ts = .ok post) :
    toPostfix (ts.flatMap (Token.replaceOperand v a.yield)) =
      .ok (post.flatMap (Token.replaceOperand v a.postorder)) := by
  cases hrun : ts.foldlM read start with
  | error e =>
    rw [toPostfix, hrun] at h
    cases h
  | ok s =>
    rw [toPostfix, hrun] at h
    obtain ⟨hall, rfl⟩ := finish_eq_ok_iff.1 h
    obtain ⟨s', hrun', hmirrors⟩ := mirrors_of_run a ⟨rfl, rfl, .inl rfl⟩ Calls.start hspaced hrun
    rw [toPostfix, hrun']
    refine finish_eq_ok_iff.2 ⟨by rwa [hmirrors.stack_eq], ?_⟩
    rw [hmirrors.stack_eq, hmirrors.output_eq, ← replacedOutput_release, replacedOutput, List.reverse_flatMap]
    simp [Function.comp_def]

section StackMachine

variable {fn : Elementary} {mode : AngleMode}

private theorem foldlM_evalStep_replaceOperand {v : Double} {a : Derivation .atom} (ha : a.value fn mode = v)
    (ts : List Token) (stack : List Double) :
    (ts.flatMap (Token.replaceOperand v a.postorder)).foldlM (evalStep fn mode) stack =
      ts.foldlM (evalStep fn mode) stack := by
  induction ts generalizing stack with
  | nil => rfl
  | cons t ts ih =>
    have hfirst : (t.replaceOperand v a.postorder).foldlM (evalStep fn mode) stack = evalStep fn mode stack t := by
      by_cases ht : t = .previous v
      · subst ht
        rw [Token.replaceOperand_previous, foldlM_evalStep_postorder, ha]
        rfl
      · rw [Token.replaceOperand_of_ne a.postorder ht]
        exact bind_pure _
    rw [List.flatMap_cons, List.foldlM_append, hfirst, List.foldlM_cons]
    exact bind_congr fun next => ih next

/-- The value does not change when an operand is replaced by an atom with its value. -/
theorem evalPostfix_replaceOperand {v : Double} {a : Derivation .atom} (ha : a.value fn mode = v) (ts : List Token) :
    evalPostfix fn mode (ts.flatMap (Token.replaceOperand v a.postorder)) = evalPostfix fn mode ts := by
  rw [evalPostfix, foldlM_evalStep_replaceOperand ha, evalPostfix]

end StackMachine

end DeskCalc
