import Mathlib.Data.List.Count
import DeskCalc.Calculation
import DeskCalc.Elementary.Platform
import DeskCalc.Proofs.Computation

/-!
# The shortest balanced completion

A text is balanced if it closes as many parentheses as it opens and no prefix of it closes more than it opens.
`closeParentheses` gives the shortest balanced text that begins with the given one, and there is only one shortest
(`closeParentheses_eq_ok_iff`); it fails exactly if some prefix closes too much, which no completion can repair
(`closeParentheses_eq_error_iff`).

Closing some of the open parentheses by hand changes nothing (`closeParentheses_append_replicate`), so the value of a
problem does not depend on it, whatever blanks are put in (`evaluate_append_closings`).
-/

namespace DeskCalc

/-- Some prefix of the text closes more parentheses than it opens. -/
def ClosesTooMuch (s : List Char) : Prop :=
  ∃ p, p <+: s ∧ p.count '(' < p.count ')'

/-- No prefix closes more parentheses than it opens, and the whole text closes all that it opens. -/
structure BalancedText (s : List Char) : Prop where
  closing_le : ∀ p, p <+: s → p.count ')' ≤ p.count '('
  count_eq : s.count ')' = s.count '('

/-- A balanced text that begins with `s` and is not longer than any other one. -/
structure ShortestCompletion (s t : List Char) : Prop where
  begins : s <+: t
  balanced : BalancedText t
  length_le : ∀ u, s <+: u → BalancedText u → t.length ≤ u.length

/-- A closing parenthesis answers the last one before it that is still open, if there is one. -/
def unclosedStep (n : Nat) (c : Char) : Nat :=
  if c = '(' then n + 1 else if c = ')' then n - 1 else n

/-- The number of opening parentheses that no closing one answers. -/
def unclosed (s : List Char) : Nat :=
  s.foldl unclosedStep 0

/-! ### Counting -/

section Counting

variable {depth d : Nat} {c : Char} {s t u : List Char}

private theorem openAfter_opening : openAfter depth ('(' :: s) = openAfter (depth + 1) s :=
  rfl

private theorem openAfter_closing : openAfter (depth + 1) (')' :: s) = openAfter depth s :=
  rfl

private theorem openAfter_closing_zero : openAfter 0 (')' :: s) = none :=
  rfl

private theorem openAfter_cons_of_ne (hopening : c ≠ '(') (hclosing : c ≠ ')') :
    openAfter depth (c :: s) = openAfter depth s := by
  rw [openAfter.eq_def]
  simp only [if_neg hopening, if_neg hclosing]

private theorem unclosedStep_of_ne (hopening : c ≠ '(') (hclosing : c ≠ ')') : unclosedStep depth c = depth := by
  rw [unclosedStep, if_neg hopening, if_neg hclosing]

/-- The running count of open parentheses, in terms of prefixes and totals. -/
private theorem openAfter_eq_some_iff : openAfter depth s = some d ↔
    (∀ p, p <+: s → p.count ')' ≤ depth + p.count '(') ∧ d + s.count ')' = depth + s.count '(' := by
  induction s generalizing depth with
  | nil =>
    rw [openAfter, Option.some.injEq]
    constructor
    · rintro rfl
      exact ⟨fun p hp => by simp [List.prefix_nil.1 hp], rfl⟩
    · rintro ⟨-, htotal⟩
      exact htotal.symm
  | cons c s ih =>
    -- a prefix of the text is empty or the first character and a prefix of the rest
    have hprefixes : ∀ n, (∀ p, p <+: c :: s → p.count ')' ≤ n + p.count '(') ↔
        ∀ p, p <+: s → (c :: p).count ')' ≤ n + (c :: p).count '(' := by
      intro n
      constructor
      · intro h p hp
        exact h _ ((List.prefix_cons_inj c).2 hp)
      · intro h p hp
        rcases List.prefix_cons_iff.1 hp with rfl | ⟨q, rfl, hq⟩
        · exact Nat.zero_le _
        · exact h q hq
    rw [hprefixes]
    by_cases hopening : c = '('
    · subst hopening
      rw [openAfter_opening, ih]
      simp only [List.count_cons_self, List.count_cons_of_ne (show '(' ≠ ')' by decide)]
      refine and_congr (forall₂_congr fun p _ => ?_) ?_ <;> omega
    by_cases hclosing : c = ')'
    · subst hclosing
      simp only [List.count_cons_self, List.count_cons_of_ne (show ')' ≠ '(' by decide)]
      cases depth with
      | zero =>
        rw [openAfter_closing_zero]
        refine iff_of_false (Option.some_ne_none d).symm fun h => ?_
        have hfirst := h.1 [] s.nil_prefix
        simp at hfirst
      | succ depth =>
        rw [openAfter_closing, ih]
        refine and_congr (forall₂_congr fun p _ => ?_) ?_ <;> omega
    · rw [openAfter_cons_of_ne hopening hclosing, ih]
      simp only [List.count_cons_of_ne hopening, List.count_cons_of_ne hclosing]

private theorem balancedText_iff : BalancedText s ↔ openAfter 0 s = some 0 := by
  rw [openAfter_eq_some_iff]
  simp only [Nat.zero_add]
  exact ⟨fun h => ⟨h.closing_le, h.count_eq⟩, fun h => ⟨h.1, h.2⟩⟩

private theorem openAfter_eq_none_iff : openAfter 0 s = none ↔ ClosesTooMuch s := by
  constructor
  · intro h
    by_contra hfew
    have hle : ∀ p, p <+: s → p.count ')' ≤ p.count '(' := fun p hp => Nat.le_of_not_lt fun hlt => hfew ⟨p, hp, hlt⟩
    have hsome : openAfter 0 s = some (s.count '(' - s.count ')') := by
      rw [openAfter_eq_some_iff]
      have hwhole := hle s s.prefix_refl
      exact ⟨fun p hp => by simpa using hle p hp, by omega⟩
    rw [h] at hsome
    cases hsome
  · rintro ⟨p, hp, hlt⟩
    rw [Option.eq_none_iff_forall_ne_some]
    intro d hd
    have hle := (openAfter_eq_some_iff.1 hd).1 p hp
    omega

/-- As long as nothing is closed that is not open, all open parentheses are unclosed ones. -/
private theorem foldl_unclosedStep (h : openAfter depth s = some d) : s.foldl unclosedStep depth = d := by
  induction s generalizing depth with
  | nil => exact Option.some.inj h
  | cons c s ih =>
    rw [List.foldl_cons]
    by_cases hopening : c = '('
    · subst hopening
      exact ih h
    by_cases hclosing : c = ')'
    · subst hclosing
      cases depth with
      | zero => cases h
      | succ depth => exact ih h
    · rw [openAfter_cons_of_ne hopening hclosing] at h
      rw [unclosedStep_of_ne hopening hclosing]
      exact ih h

private theorem unclosed_eq (h : openAfter 0 s = some d) : unclosed s = d :=
  foldl_unclosedStep h

/-- A text that closes `d` open parentheses has at least so many characters, and only closing ones if it has no more. -/
private theorem length_of_openAfter (h : openAfter d t = some 0) :
    d ≤ t.length ∧ (t.length ≤ d → t = List.replicate d ')') := by
  have htotal := (openAfter_eq_some_iff.1 h).2
  have hcount : t.count ')' ≤ t.length := List.count_le_length
  refine ⟨by omega, fun hle => List.eq_replicate_iff.2 ⟨by omega, fun c hc => ?_⟩⟩
  have hall : t.count ')' = t.length := by omega
  exact (List.count_eq_length.1 hall c hc).symm

end Counting

/-! ### The completion -/

section Completion

variable {s t u : List Char}

theorem closeParentheses_eq_error_iff {f : Fault} :
    closeParentheses s = .error f ↔ f = .unmatchedParenthesis ∧ ClosesTooMuch s := by
  rw [closeParentheses, ← openAfter_eq_none_iff]
  cases openAfter 0 s with
  | none => exact ⟨fun h => ⟨(Except.error.inj h).symm, rfl⟩, fun h => h.1 ▸ rfl⟩
  | some d =>
    refine iff_of_false (fun h => ?_) fun h => Option.some_ne_none d h.2
    cases h

/-- The shortest completion closes what is open at the end and adds nothing else. -/
private theorem shortestCompletion_iff {d : Nat} (h : openAfter 0 s = some d) :
    ShortestCompletion s t ↔ t = s ++ List.replicate d ')' := by
  have hclosed : ∀ v, BalancedText (s ++ v) ↔ openAfter d v = some 0 := by
    intro v
    rw [balancedText_iff, openAfter_append, h, Option.bind_some]
  have hcompletion : BalancedText (s ++ List.replicate d ')') := by
    rw [hclosed]
    simpa using openAfter_replicate 0 d
  constructor
  · rintro ⟨⟨v, rfl⟩, hbalanced, hleast⟩
    have hle := hleast _ (List.prefix_append _ _) hcompletion
    rw [List.length_append, List.length_append, List.length_replicate, Nat.add_le_add_iff_left] at hle
    rw [(length_of_openAfter ((hclosed v).1 hbalanced)).2 hle]
  · rintro rfl
    refine ⟨List.prefix_append _ _, hcompletion, ?_⟩
    rintro u ⟨v, rfl⟩ hbalanced
    rw [List.length_append, List.length_append, List.length_replicate, Nat.add_le_add_iff_left]
    exact (length_of_openAfter ((hclosed v).1 hbalanced)).1

/-- A text that closes too much has no balanced completion. -/
private theorem ClosesTooMuch.not_balancedText (h : ClosesTooMuch s) (hbegins : s <+: t) : ¬BalancedText t := by
  obtain ⟨p, hp, hlt⟩ := h
  intro hbalanced
  have hle := hbalanced.closing_le p (hp.trans hbegins)
  omega

/-- Closing the parentheses gives the shortest completion. -/
theorem closeParentheses_eq_ok_iff : closeParentheses s = .ok t ↔ ShortestCompletion s t := by
  rw [closeParentheses]
  cases h : openAfter 0 s with
  | none =>
    refine iff_of_false (fun ht => ?_) fun ht =>
      (openAfter_eq_none_iff.1 h).not_balancedText ht.begins ht.balanced
    cases ht
  | some d =>
    rw [shortestCompletion_iff h, Except.ok.injEq]
    exact eq_comm

private theorem closeParentheses_of_balancedText (h : BalancedText s) : closeParentheses s = .ok s := by
  rw [closeParentheses, balancedText_iff.1 h]
  simp

/-- Parentheses that are closed by hand would have been closed anyway. -/
theorem closeParentheses_append_replicate {k : Nat} (hk : k ≤ unclosed s) :
    closeParentheses (s ++ List.replicate k ')') = closeParentheses s := by
  rw [closeParentheses, closeParentheses, openAfter_append]
  cases h : openAfter 0 s with
  | none => rfl
  | some d =>
    rw [unclosed_eq h] at hk
    obtain ⟨rest, rfl⟩ := Nat.exists_eq_add_of_le' hk
    rw [Option.bind_some, openAfter_replicate]
    dsimp only
    rw [List.append_assoc, List.replicate_append_replicate, Nat.add_comm k]

end Completion

/-! ### Evaluation -/

section Evaluation

variable {s : List Char}

/-- Blanks are no parentheses. -/
private theorem unclosed_removeBlanks (s : List Char) : unclosed (removeBlanks s) = unclosed s := by
  rw [unclosed, unclosed, removeBlanks, List.foldl_filter]
  congr 1
  funext n c
  by_cases hopening : c = '('
  · subst hopening
    rfl
  by_cases hclosing : c = ')'
  · subst hclosing
    rfl
  · rw [unclosedStep_of_ne hopening hclosing, ite_self]

/-- The value of a text depends on its completion only, unless the text is empty or calls for help. -/
private theorem cleanedValue_append_replicate {fn : Elementary} {mode : AngleMode} {places : Int}
    {previous : PreviousAnswer} {k : Nat} (hk : k ≤ unclosed s) :
    cleanedValue fn mode places previous (s ++ List.replicate k ')') = cleanedValue fn mode places previous s := by
  rcases Nat.eq_zero_or_pos k with rfl | hpos
  · rw [List.replicate_zero, List.append_nil]
  · -- a text with an open parenthesis is neither
    have hnil : s ≠ [] := by
      rintro rfl
      exact absurd hk (Nat.not_le_of_lt hpos)
    have hhelp : s ≠ ['h', 'e', 'l', 'p'] := by
      rintro rfl
      exact absurd hk (Nat.not_le_of_lt hpos)
    have hclosing : s ++ List.replicate k ')' ≠ ['h', 'e', 'l', 'p'] := by
      intro heq
      have hmem : ')' ∈ s ++ List.replicate k ')' :=
        List.mem_append_right _ (List.mem_replicate.2 ⟨by omega, rfl⟩)
      rw [heq] at hmem
      exact absurd hmem (by decide)
    rw [cleanedValue, cleanedValue, if_neg hclosing, if_neg hhelp, rawValue, rawValue,
      closeParentheses_append_replicate hk]
    simp [hnil]

/-- Adding closing parentheses between blanks does not change the outcome of a problem. -/
theorem evaluate_append_closings (fn : Elementary) (mode : AngleMode) (places : Int) (previous : PreviousAnswer)
    {k : Nat} (hk : k ≤ unclosed s) {added : List Char} (hadded : removeBlanks added = List.replicate k ')') :
    evaluate fn mode places previous (String.ofList (s ++ added)) =
      evaluate fn mode places previous (String.ofList s) := by
  rw [evaluate, evaluate, String.toList_ofList, String.toList_ofList, removeBlanks_append, hadded]
  exact cleanedValue_append_replicate (by rwa [unclosed_removeBlanks])

end Evaluation

/-- Closing the parentheses of a text fails, with a report of code `3100`, exactly if some prefix closes more than it
opens.  Otherwise it adds as many closing parentheses as are missing, which makes the only shortest balanced text that
begins with the given one.  A second time it adds nothing.  Closing by hand up to as many parentheses as are unclosed has
no influence on that, and none on the outcome of a problem, even with blanks around what is added. -/
theorem closeParentheses_completes (s : List Char) :
    ((∃ f, closeParentheses s = .error f ∧ f.kind = .syntactic ∧ f.code = "3100") ↔ ClosesTooMuch s) ∧
      (¬ClosesTooMuch s → closeParentheses s = .ok (s ++ List.replicate (unclosed s) ')') ∧
        ∀ t, ShortestCompletion s t ↔ t = s ++ List.replicate (unclosed s) ')') ∧
      (∀ t, closeParentheses s = .ok t → closeParentheses t = .ok t) ∧
      ∀ k ≤ unclosed s, closeParentheses (s ++ List.replicate k ')') = closeParentheses s ∧
        ∀ added, removeBlanks added = List.replicate k ')' → ∀ fn mode places previous,
          evaluate fn mode places previous (String.ofList (s ++ added)) =
            evaluate fn mode places previous (String.ofList s) := by
  refine ⟨⟨?_, fun h => ?_⟩, fun h => ?_, fun t ht => ?_, fun k hk => ?_⟩
  · rintro ⟨f, hf, -⟩
    exact (closeParentheses_eq_error_iff.1 hf).2
  · exact ⟨.unmatchedParenthesis, closeParentheses_eq_error_iff.2 ⟨rfl, h⟩, rfl, rfl⟩
  · rw [← openAfter_eq_none_iff] at h
    obtain ⟨d, hd⟩ := Option.ne_none_iff_exists'.1 h
    have hcompletion : ∀ t, ShortestCompletion s t ↔ t = s ++ List.replicate (unclosed s) ')' := by
      intro t
      rw [unclosed_eq hd]
      exact shortestCompletion_iff hd
    exact ⟨closeParentheses_eq_ok_iff.2 ((hcompletion _).2 rfl), hcompletion⟩
  · exact closeParentheses_of_balancedText (closeParentheses_eq_ok_iff.1 ht).balanced
  · exact ⟨closeParentheses_append_replicate hk,
      fun added hadded fn mode places previous => evaluate_append_closings fn mode places previous hk hadded⟩

/-- A text that closes as many parentheses as it opens may close one too early. -/
example : closeParentheses [')', '1', '('] = .error .unmatchedParenthesis :=
  rfl

/-- Two parentheses are open after `2*max(3,(1`; one of them is closed by hand, after a blank. -/
theorem closeParentheses_completes_by_hand :
    ¬ClosesTooMuch ['2', '*', 'm', 'a', 'x', '(', '3', ',', '(', '1'] ∧
      (1 ≤ unclosed ['2', '*', 'm', 'a', 'x', '(', '3', ',', '(', '1'] ∧
        removeBlanks [' ', ')'] = List.replicate 1 ')') ∧
      closeParentheses ['2', '*', 'm', 'a', 'x', '(', '3', ',', '(', '1'] =
        .ok ['2', '*', 'm', 'a', 'x', '(', '3', ',', '(', '1', ')', ')'] ∧
      evaluate .platform .degrees 2 .absent
          (String.ofList (['2', '*', 'm', 'a', 'x', '(', '3', ',', '(', '1'] ++ [' ', ')'])) =
        evaluate .platform .degrees 2 .absent (String.ofList ['2', '*', 'm', 'a', 'x', '(', '3', ',', '(', '1']) := by
  have hopen : ¬ClosesTooMuch ['2', '*', 'm', 'a', 'x', '(', '3', ',', '(', '1'] := by
    rw [← openAfter_eq_none_iff]
    decide
  have hcompletes := closeParentheses_completes ['2', '*', 'm', 'a', 'x', '(', '3', ',', '(', '1']
  exact ⟨hopen, ⟨by decide, by decide⟩, (hcompletes.2.1 hopen).1,
    (hcompletes.2.2.2 1 (by decide)).2 [' ', ')'] (by decide) .platform .degrees 2 .absent⟩

end DeskCalc
