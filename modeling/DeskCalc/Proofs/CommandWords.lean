import DeskCalc.CommandLine.Arguments
import DeskCalc.Proofs.Computation

/-!
# Problems on the command line

A problem on the command line is a word among others, and a word with a minus sign at its beginning is taken for an
option first.  It is the problem after all only if it is a negative decimal number, or names no option and contains a
space (`IsOperand`).  Then a command line of this one word asks for the problem (`Arguments.ofTexts_of_isOperand`);
otherwise it is refused, calls for help, or asks for no problem at all (`Arguments.problem_of_not_isOperand`).
-/

namespace DeskCalc

namespace CommandWord

/-- The word begins as an option: with two minus signs and the beginning of a name, or with one minus sign and a
letter. -/
def NamesOption : List Char → Prop
  | '-' :: c :: rest =>
    if c = '-' then CommandOption.ofBeginning (rest.takeWhile (· != '=')) ≠ []
    else (CommandOption.ofLetter? c).isSome = true
  | _ => False

/-- The ways in which a word is an operand. -/
inductive IsOperand (word : List Char) : Prop where
  | unsigned (h : word.head? ≠ some '-')
  | lone (h : word = ['-'])
  | number (h : isNegativeNumber word = true)
  | spaced (space : ' ' ∈ word) (nameless : ¬NamesOption word)

/-! ### Negative numbers -/

/-- After its minus sign a negative number has a digit or a point. -/
private theorem exists_of_isNegativeNumber {word : List Char} (h : isNegativeNumber word = true) :
    ∃ c rest, word = '-' :: c :: rest ∧ ((decimalDigit? c).isSome = true ∨ c = '.') := by
  have hbody : ∃ tail, word = (if word.getLast? = some '\n' then word.dropLast else word) ++ tail := by
    split
    · rename_i hlast
      obtain ⟨body, rfl⟩ := List.getLast?_eq_some_iff.1 hlast
      exact ⟨['\n'], by rw [List.dropLast_concat]⟩
    · exact ⟨[], (List.append_nil word).symm⟩
  obtain ⟨tail, htail⟩ := hbody
  unfold isNegativeNumber at h
  generalize (if word.getLast? = some '\n' then word.dropLast else word) = body at h htail
  rw [Bool.and_eq_true, beq_iff_eq] at h
  obtain ⟨hhead, hnumber⟩ := h
  match body with
  | [] => cases hhead
  | [_] => cases hnumber
  | d :: c :: rest =>
    obtain rfl : d = '-' := Option.some.inj hhead
    refine ⟨c, rest ++ tail, htail, ?_⟩
    cases hdigit : (decimalDigit? c).isSome with
    | true => exact .inl rfl
    | false =>
      rw [List.tail_cons, List.dropWhile_cons_of_neg (by simp [hdigit])] at hnumber
      split at hnumber
      · cases ‹c :: rest = []›
      · rename_i heq
        exact .inr (List.cons.inj heq).1
      · cases hnumber

/-- No option is written with a digit or a point. -/
private theorem ofLetter?_of_digit {c : Char} (h : (decimalDigit? c).isSome = true ∨ c = '.') :
    CommandOption.ofLetter? c = none := by
  rw [Option.eq_none_iff_forall_ne_some]
  intro o ho
  have hletter := List.find?_some (p := fun o : CommandOption => o.letter? == some c) ho
  have hletters : ∀ o : CommandOption, ∀ d, o.letter? = some d → decimalDigit? d = none ∧ d ≠ '.' := by
    intro o d hd
    cases o with
    | debug => cases hd
    | _ =>
      cases hd
      decide +kernel
  obtain ⟨hdigit, hpoint⟩ := hletters o c (beq_iff_eq.1 hletter)
  rw [hdigit] at h
  exact h.elim (fun hsome => nomatch hsome) hpoint

private theorem not_namesOption_of_isNegativeNumber {word : List Char} (h : isNegativeNumber word = true) :
    ¬NamesOption word := by
  obtain ⟨c, rest, rfl, hc⟩ := exists_of_isNegativeNumber h
  have hminus : c ≠ '-' := by
    rintro rfl
    exact absurd hc (by decide +kernel)
  rw [NamesOption, if_neg hminus, ofLetter?_of_digit hc]
  exact Bool.false_ne_true

/-! ### One word -/

/-- A word that names an option is an option or ambiguous. -/
private theorem ofText_of_namesOption {word : String} (h : NamesOption word.toList) :
    (∃ f, ofText word = .error f) ∨ ∃ w, ofText word = .ok (.option w) := by
  unfold ofText
  split
  · rename_i rest heq
    rw [heq, NamesOption, if_pos rfl] at h
    split
    · rename_i hnil
      exact absurd hnil h
    · exact .inr ⟨_, rfl⟩
    · exact .inl ⟨_, rfl⟩
  · rename_i c rest hne heq
    rw [heq, NamesOption, if_neg hne] at h
    obtain ⟨o, ho⟩ := Option.isSome_iff_exists.1 h
    rw [ho]
    exact .inr ⟨_, rfl⟩
  · rename_i hnone
    unfold NamesOption at h
    split at h
    · rename_i c rest heq
      exact (hnone c rest heq).elim
    · exact h.elim

/-- A word with a minus sign that names no option is an operand or unknown. -/
private theorem withoutOption_cases {word : String} {c : Char} {rest : List Char}
    (word_eq : word.toList = '-' :: c :: rest) (h : ¬NamesOption word.toList) :
    IsOperand word.toList ∧ withoutOption word = .operand word ∨
      ¬IsOperand word.toList ∧ withoutOption word = .unknown word := by
  rw [withoutOption]
  split
  · rename_i hnumber
    rw [Bool.or_eq_true, List.contains_iff_mem] at hnumber
    exact .inl ⟨hnumber.elim .number fun hspace => .spaced hspace h, rfl⟩
  · rename_i hother
    rw [Bool.or_eq_true, List.contains_iff_mem, not_or] at hother
    refine .inr ⟨fun hoperand => ?_, rfl⟩
    cases hoperand with
    | unsigned hsign => exact hsign (by rw [word_eq]; rfl)
    | lone hlone =>
      rw [word_eq] at hlone
      cases hlone
    | number hnumber => exact hother.1 hnumber
    | spaced hspace => exact hother.2 hspace

private theorem ofText_eq_withoutOption {word : String} {c : Char} {rest : List Char}
    (word_eq : word.toList = '-' :: c :: rest) (h : ¬NamesOption word.toList) :
    ofText word = .ok (withoutOption word) := by
  unfold ofText
  split
  · rename_i rest heq
    rw [heq, NamesOption, if_pos rfl, Classical.not_not] at h
    rw [h]
  · rename_i c rest hne heq
    rw [heq, NamesOption, if_neg hne, Option.isSome_iff_ne_none, Classical.not_not] at h
    rw [h]
  · rename_i hnone
    exact (hnone c rest word_eq).elim

/-- No operand names an option. -/
private theorem IsOperand.nameless {word : List Char} (h : IsOperand word) : ¬NamesOption word := by
  cases h with
  | unsigned hsign =>
    unfold NamesOption
    split
    · exact fun _ => hsign rfl
    · exact id
  | lone hlone =>
    rw [hlone]
    exact id
  | number hnumber => exact not_namesOption_of_isNegativeNumber hnumber
  | spaced _ nameless => exact nameless

private theorem ofText_of_isOperand {word : String} (h : IsOperand word.toList) :
    ofText word = .ok (.operand word) := by
  by_cases hminus : ∃ c rest, word.toList = '-' :: c :: rest
  · obtain ⟨c, rest, word_eq⟩ := hminus
    rw [ofText_eq_withoutOption word_eq h.nameless]
    rcases withoutOption_cases word_eq h.nameless with ⟨-, hword⟩ | ⟨hnot, -⟩
    · rw [hword]
    · exact absurd h hnot
  · unfold ofText
    split
    · rename_i rest heq
      exact absurd ⟨_, rest, heq⟩ hminus
    · rename_i c rest _ heq
      exact absurd ⟨c, rest, heq⟩ hminus
    · rfl

/-- A word that is no operand is ambiguous, an option, or unknown. -/
private theorem ofText_of_not_isOperand {word : String} (h : ¬IsOperand word.toList) :
    (∃ f, ofText word = .error f) ∨ (∃ w, ofText word = .ok (.option w)) ∨ ofText word = .ok (.unknown word) := by
  by_cases hname : NamesOption word.toList
  · exact (ofText_of_namesOption hname).imp_right .inl
  · have hminus : word.toList.head? = some '-' := Classical.byContradiction fun hne => h (.unsigned hne)
    obtain ⟨rest, word_eq⟩ := List.head?_eq_some_iff.1 hminus
    cases rest with
    | nil => exact absurd (.lone word_eq) h
    | cons c rest =>
      rw [ofText_eq_withoutOption word_eq hname]
      rcases withoutOption_cases word_eq hname with ⟨hoperand, -⟩ | ⟨-, hword⟩
      · exact absurd hoperand h
      · exact .inr (.inr (by rw [hword]))

/-- The sign for no more options is not an operand. -/
private theorem ne_separator_of_isOperand {word : String} (h : IsOperand word.toList) : word ≠ "--" := by
  rintro rfl
  refine h.nameless ?_
  rw [show "--".toList = ['-', '-'] from rfl, NamesOption, if_pos rfl]
  decide

end CommandWord

/-! ### A command line of one word -/

namespace Arguments

open CommandWord (IsOperand)

variable [Host] {a b : Arguments}

omit [Host] in
private theorem problem_switch {o : CommandOption} (h : a.switch o = .ok b) : b.problem = a.problem := by
  cases o <;> cases h <;> rfl

private theorem problem_setValue {o : CommandOption} {text : List Char} (h : a.setValue o text = .ok b) :
    b.problem = a.problem := by
  unfold setValue at h
  split at h
  · cases h
  · cases o <;> cases h <;> rfl

/-- Options do not touch the problem. -/
private theorem problem_takeSteps {steps : List CommandStep} (h : a.takeSteps steps = .ok b) :
    b.problem = a.problem := by
  induction steps generalizing a with
  | nil =>
    cases h
    rfl
  | cons step steps ih =>
    obtain ⟨next, hstep, hrest⟩ := exists_of_foldlM_cons h
    have hnext : next.problem = a.problem := by
      cases step with
      | option o => exact problem_switch hstep
      | value o text => exact problem_setValue hstep
      | awaited o => cases hstep
      | unknown text =>
        cases hstep
        rfl
    exact (ih hrest).trans hnext

/-- Without further words an option leads to no problem. -/
private theorem problem_readWords_option {atProblem : Bool} {w : OptionWord}
    (h : readWords a atProblem [.option w] = .ok b) : b.problem = a.problem := by
  rw [readWords] at h
  obtain ⟨steps, -, hsteps⟩ := exists_of_bind_eq_ok h
  split at hsteps
  · obtain ⟨next, htaken, hnext⟩ := exists_of_bind_eq_ok hsteps
    cases hnext
    exact problem_takeSteps htaken
  · cases hsteps

/-- A single operand is the problem. -/
theorem ofTexts_of_isOperand {word : String} (h : IsOperand word.toList) :
    ofTexts [word] = .ok { empty with problem := some word } := by
  have hwords : CommandWord.ofTexts [word] = .ok [.operand word] := by
    rw [CommandWord.ofTexts, if_neg (CommandWord.ne_separator_of_isOperand h), CommandWord.ofText_of_isOperand h]
    rfl
  rw [ofTexts, hwords]
  rfl

/-- A single word of any other kind leads to no problem. -/
theorem problem_of_not_isOperand {word : String} (h : ¬IsOperand word.toList) (ha : ofTexts [word] = .ok a) :
    a.problem = none := by
  obtain ⟨words, hwords, hread⟩ := exists_of_bind_eq_ok ha
  obtain ⟨b, hb, hchecked⟩ := exists_of_bind_eq_ok hread
  obtain rfl : b = a := by
    split at hchecked
    · exact Except.ok.inj hchecked
    · cases hchecked
  rw [mapError_eq_ok_iff, CommandWord.ofTexts] at hwords
  split at hwords
  · cases hwords
    cases hb
    rfl
  · obtain ⟨w, hw, hwords⟩ := exists_of_bind_eq_ok hwords
    cases hwords
    rcases CommandWord.ofText_of_not_isOperand h with ⟨f, hf⟩ | ⟨o, ho⟩ | hunknown
    · rw [hf] at hw
      cases hw
    · rw [ho] at hw
      cases hw
      exact problem_readWords_option hb
    · rw [hunknown] at hw
      cases hw
      cases hb
      rfl

end Arguments

end DeskCalc
