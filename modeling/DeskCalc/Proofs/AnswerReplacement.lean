import DeskCalc.Proofs.OperandReplacement
import DeskCalc.Proofs.Reevaluation

/-!
# The previous answer as a number in parentheses

The sign `_` may be replaced by a numeral of the previous answer in parentheses, with a minus sign before the numeral
of a negative answer (`evaluate_replaceAnswer`).  Wherever it stands, the same products are meant: an operand begins
and ends with a parenthesis as it does with the sign.  From the tokens on, the theorems on operands apply.
-/

namespace DeskCalc

/-- The text with another text in place of every sign of the previous answer. -/
def replaceAnswer (text s : List Char) : List Char :=
  s.flatMap fun c => if c = '_' then text else [c]

section Text

variable {text s : List Char}

private theorem replaceAnswer_cons_of_ne (text : List Char) {c : Char} (h : c ≠ '_') (s : List Char) :
    replaceAnswer text (c :: s) = c :: replaceAnswer text s := by
  rw [replaceAnswer, List.flatMap_cons, if_neg h]
  rfl

private theorem replaceAnswer_cons (text s : List Char) :
    replaceAnswer text ('_' :: s) = text ++ replaceAnswer text s := by
  rw [replaceAnswer, List.flatMap_cons, if_pos rfl]
  rfl

private theorem replaceAnswer_append (text s t : List Char) :
    replaceAnswer text (s ++ t) = replaceAnswer text s ++ replaceAnswer text t :=
  List.flatMap_append

private theorem replaceAnswer_of_not_mem (text : List Char) (h : '_' ∉ s) : replaceAnswer text s = s := by
  induction s with
  | nil => rfl
  | cons c s ih =>
    rw [List.mem_cons, not_or] at h
    rw [replaceAnswer_cons_of_ne text (Ne.symm h.1), ih h.2]

/-- The text stays as it is or contains what the sign is replaced by. -/
private theorem replaceAnswer_eq_or_mem {c : Char} (hc : c ∈ text) (s : List Char) :
    replaceAnswer text s = s ∨ c ∈ replaceAnswer text s := by
  by_cases h : '_' ∈ s
  · exact .inr (List.mem_flatMap.2 ⟨'_', h, by rwa [if_pos rfl]⟩)
  · exact .inl (replaceAnswer_of_not_mem text h)

private theorem removeBlanks_replaceAnswer (htext : ∀ c ∈ text, isBlank c = false) (s : List Char) :
    removeBlanks (replaceAnswer text s) = replaceAnswer text (removeBlanks s) := by
  induction s with
  | nil => rfl
  | cons c s ih =>
    by_cases hc : c = '_'
    · subst hc
      have hkeep : removeBlanks text = text := List.filter_eq_self.2 fun c hc => by rw [htext c hc]; rfl
      have hsign : removeBlanks ('_' :: s) = '_' :: removeBlanks s := rfl
      rw [replaceAnswer_cons, removeBlanks_append, hkeep, ih, hsign, replaceAnswer_cons]
    · rw [replaceAnswer_cons_of_ne text hc, removeBlanks, removeBlanks, List.filter_cons, List.filter_cons]
      split
      · rw [replaceAnswer_cons_of_ne text hc]
        exact congrArg _ ih
      · exact ih

private theorem openAfter_replaceAnswer (htext : ∀ depth, openAfter depth text = some depth) (depth : Nat)
    (s : List Char) : openAfter depth (replaceAnswer text s) = openAfter depth s := by
  induction s generalizing depth with
  | nil => rfl
  | cons c s ih =>
    by_cases hc : c = '_'
    · subst hc
      rw [replaceAnswer_cons, openAfter_append, htext]
      exact ih depth
    · rw [replaceAnswer_cons_of_ne text hc, openAfter.eq_def, openAfter.eq_def depth (c :: s)]
      simp only
      split
      · exact ih _
      · split
        · cases depth with
          | zero => rfl
          | succ depth => exact ih depth
        · exact ih _

private theorem closeParentheses_replaceAnswer (htext : ∀ depth, openAfter depth text = some depth)
    {balanced : List Char} (h : closeParentheses s = .ok balanced) :
    closeParentheses (replaceAnswer text s) = .ok (replaceAnswer text balanced) := by
  rw [closeParentheses] at h
  rw [closeParentheses, openAfter_replaceAnswer htext]
  split at h
  · rename_i depth _
    cases h
    have hclosing : '_' ∉ List.replicate depth ')' := fun hmem =>
      absurd (List.eq_of_mem_replicate hmem) (by decide)
    rw [replaceAnswer_append, replaceAnswer_of_not_mem text hclosing]
  · cases h

end Text

/-! ### Items -/

namespace Item

/-- The previous answer replaced by other items. -/
def replaceAnswer (g : List Item) : Item → List Item
  | previous => g
  | i => [i]

private theorem replaceAnswer_of_ne (g : List Item) {i : Item} (h : i ≠ previous) : i.replaceAnswer g = [i] := by
  cases i <;> first | rfl | exact absurd rfl h

private theorem flatMap_spelling_replaceAnswer (g : List Item) (items : List Item) :
    (items.flatMap (Item.replaceAnswer g)).flatMap spelling =
      DeskCalc.replaceAnswer (g.flatMap spelling) (items.flatMap spelling) := by
  induction items with
  | nil => rfl
  | cons i rest ih =>
    rw [List.flatMap_cons, List.flatMap_append, ih, List.flatMap_cons, replaceAnswer_append]
    by_cases hi : i = previous
    · subst hi
      rw [spelling, replaceAnswer_cons]
      simp [replaceAnswer, DeskCalc.replaceAnswer]
    · rw [replaceAnswer_of_ne g hi, replaceAnswer_of_not_mem _ fun h => hi (i.eq_of_mem_spelling.2.2 h)]
      simp

/-- The product that is meant between an item and the next one. -/
def productBefore (i : Item) : Option Item → List Token
  | some j => if i.endsOperand && j.beginsOperand then [.operator .multiply] else []
  | none => []

private theorem tokensOf_cons (answer : Double) (i : Item) (rest : List Item) :
    tokensOf answer (i :: rest) = i.token answer :: (i.productBefore rest.head? ++ tokensOf answer rest) := by
  cases rest with
  | nil => rfl
  | cons j rest => rfl

end Item

/-! ### A number in parentheses -/

namespace Literal

variable (l : Literal) (negative : Bool)

/-- The text of the literal in parentheses, with a sign. -/
def groupText : List Char :=
  '(' :: (minusSign negative ++ l.text ++ [')'])

def groupItems : List Item :=
  .opening :: (l.signedItems negative ++ [.closing])

/-- The tree of a number with a sign in parentheses. -/
def groupDerivation : Derivation .atom :=
  .group (.signedNumber negative (literalValue l.text))

private theorem flatMap_spelling_groupItems : (l.groupItems negative).flatMap Item.spelling = l.groupText negative := by
  have hspells := (l.spells_signedItems negative none).spelling_eq
  rw [groupItems, List.flatMap_cons, List.flatMap_append, hspells]
  rfl

private theorem openAfter_groupText (depth : Nat) : openAfter depth (l.groupText negative) = some depth := by
  have hno := openAfter_of_not_mem (l.not_mem_signed negative (c := '(') (by decide) (by decide))
    (l.not_mem_signed negative (c := ')') (by decide) (by decide)) (depth + 1)
  change openAfter (depth + 1) (minusSign negative ++ l.text ++ [')']) = some depth
  rw [openAfter_append, hno]
  rfl

private theorem isBlank_of_mem_groupText {c : Char} (h : c ∈ l.groupText negative) : isBlank c = false := by
  rw [groupText, List.mem_cons, List.mem_append, List.mem_singleton] at h
  rcases h with rfl | h | rfl
  · decide
  · have hall : literalChars.all (fun c => !isBlank c) = true := by decide
    rcases l.mem_signed negative h with rfl | hlit
    · decide
    · simpa using of_isLiteralChar hall hlit
  · decide

end Literal

namespace Item

variable (l : Literal) (negative : Bool)

/-- The item that comes next changes only from the previous answer to an open parenthesis. -/
private theorem head?_flatMap_replaceAnswer (rest : List Item) :
    (rest.flatMap (replaceAnswer (l.groupItems negative))).head? = rest.head? ∨
      rest.head? = some previous ∧ (rest.flatMap (replaceAnswer (l.groupItems negative))).head? = some opening := by
  cases rest with
  | nil => exact .inl rfl
  | cons i rest =>
    by_cases hi : i = previous
    · subst hi
      exact .inr ⟨rfl, rfl⟩
    · rw [List.flatMap_cons, replaceAnswer_of_ne _ hi]
      exact .inl rfl

private theorem mayPrecede_opening {i : Item} (h : i.mayPrecede (some previous)) : i.mayPrecede (some opening) := by
  cases i with
  | operator op hop => cases op <;> trivial
  | function f => rfl
  | rootSign => rfl
  | _ => trivial

private theorem mayPrecede_replaceAnswer {i : Item} {rest : List Item} (h : i.mayPrecede rest.head?) :
    i.mayPrecede (rest.flatMap (replaceAnswer (l.groupItems negative))).head? := by
  rcases head?_flatMap_replaceAnswer l negative rest with heq | ⟨hprevious, hopening⟩
  · rwa [heq]
  · rw [hopening]
    rw [hprevious] at h
    exact mayPrecede_opening h

private theorem Compatible.groupItems_append {answer : Option Double} {rest : List Item} (h : Compatible answer rest) :
    Compatible answer (l.groupItems negative ++ rest) := by
  cases negative with
  | false => exact ⟨trivial, nofun, trivial, nofun, trivial, nofun, h⟩
  | true => exact ⟨trivial, nofun, trivial, nofun, trivial, nofun, trivial, nofun, h⟩

/-- Compatible items stay compatible, and they do not need a previous answer any more. -/
private theorem Compatible.replaceAnswer {answer : Option Double} {items : List Item} (h : Compatible answer items)
    (answer' : Option Double) :
    Compatible answer' (items.flatMap (Item.replaceAnswer (l.groupItems negative))) := by
  induction items with
  | nil => trivial
  | cons i rest ih =>
    obtain ⟨hmay, -, hrest⟩ := h
    rw [List.flatMap_cons]
    by_cases hi : i = previous
    · subst hi
      exact (ih hrest).groupItems_append l negative
    · rw [replaceAnswer_of_ne _ hi]
      exact ⟨mayPrecede_replaceAnswer l negative hmay, fun h => absurd h hi, ih hrest⟩

private theorem productBefore_replaceAnswer (i : Item) (rest : List Item) :
    i.productBefore (rest.flatMap (replaceAnswer (l.groupItems negative))).head? = i.productBefore rest.head? := by
  rcases head?_flatMap_replaceAnswer l negative rest with heq | ⟨hprevious, hopening⟩
  · rw [heq]
  · rw [hprevious, hopening]
    rfl

/-- The product after a group is the one after the previous answer. -/
private theorem productBefore_closing (next : Option Item) :
    closing.productBefore next = previous.productBefore next := by
  cases next <;> rfl

private theorem tokensOf_groupItems_append (answer : Double) (rest : List Item) :
    tokensOf answer (l.groupItems negative ++ rest) =
      (l.groupDerivation negative).yield ++ (closing.productBefore rest.head? ++ tokensOf answer rest) := by
  have hliteral : (literal l).token answer = .number (literalValue l.text) := by
    rw [token, l.readDouble_text, Option.getD_some]
  have hopening : ∀ next, opening.productBefore next = [] := fun next => by cases next <;> rfl
  have hsubtract : ∀ next, (operator .subtract (by decide)).productBefore next = [] := fun next => by
    cases next <;> rfl
  have hclosing : (literal l).productBefore (some closing) = [] := rfl
  cases negative with
  | false =>
    change tokensOf answer (opening :: literal l :: closing :: rest) = _
    rw [tokensOf_cons, tokensOf_cons, tokensOf_cons, hopening, hliteral, List.head?_cons, hclosing]
    rfl
  | true =>
    change tokensOf answer (opening :: operator .subtract _ :: literal l :: closing :: rest) = _
    rw [tokensOf_cons, tokensOf_cons, tokensOf_cons, tokensOf_cons, hopening, hsubtract, hliteral, List.head?_cons,
      hclosing]
    rfl

/-- Only the sign of the previous answer has a token that depends on the answer. -/
private theorem token_eq_of_ne {i : Item} (h : i ≠ previous) (answer answer' : Double) :
    i.token answer = i.token answer' := by
  cases i <;> first | rfl | exact absurd rfl h

private theorem token_ne_previous {i : Item} (h : i ≠ previous) (answer x : Double) : i.token answer ≠ .previous x := by
  cases i with
  | previous => exact absurd rfl h
  | _ => exact nofun

private theorem flatMap_productBefore {v : Double} (ts : List Token) (i : Item) (next : Option Item) :
    (i.productBefore next).flatMap (Token.replaceOperand v ts) = i.productBefore next := by
  cases next with
  | none => rfl
  | some j =>
    rw [productBefore]
    split <;> rfl

/-- The tokens change in the place of the previous answer only; the products between items stay. -/
private theorem tokensOf_replaceAnswer (v answer : Double) (items : List Item) :
    tokensOf answer (items.flatMap (replaceAnswer (l.groupItems negative))) =
      (tokensOf v items).flatMap (Token.replaceOperand v (l.groupDerivation negative).yield) := by
  induction items with
  | nil => rfl
  | cons i rest ih =>
    rw [List.flatMap_cons, tokensOf_cons, List.flatMap_cons, List.flatMap_append, flatMap_productBefore, ← ih]
    by_cases hi : i = previous
    · subst hi
      rw [replaceAnswer, tokensOf_groupItems_append, productBefore_replaceAnswer, productBefore_closing, token,
        Token.replaceOperand_previous]
    · rw [replaceAnswer_of_ne _ hi, Token.replaceOperand_of_ne _ (token_ne_previous hi v v), List.singleton_append,
        tokensOf_cons, productBefore_replaceAnswer, token_eq_of_ne hi answer v, List.singleton_append]

end Item

/-! ### Evaluating the text -/

section Evaluation

variable (l : Literal) (negative : Bool) {fn : Elementary} {mode : AngleMode} {v : Double}

/-- The lexer puts the tokens of the group in place of the previous answer, whatever the previous answer is now. -/
private theorem lex_replaceAnswer {s : List Char} {ts : List Token} (h : lex (.value v) s = .ok ts)
    (previous : PreviousAnswer) :
    lex previous (replaceAnswer (l.groupText negative) s) =
      .ok (ts.flatMap (Token.replaceOperand v (l.groupDerivation negative).yield)) := by
  obtain ⟨items, ⟨hcompatible, hspelling⟩, rfl⟩ := exists_items_of_lex h
  have hspells : Spells previous.number? (items.flatMap (Item.replaceAnswer (l.groupItems negative)))
      (replaceAnswer (l.groupText negative) s) := by
    refine ⟨hcompatible.replaceAnswer l negative previous.number?, ?_⟩
    rw [Item.flatMap_spelling_replaceAnswer, l.flatMap_spelling_groupItems, hspelling]
  rw [hspells.lex_eq, Item.tokensOf_replaceAnswer]
  rfl

private theorem Literal.value_groupDerivation (hv : (literalValue l.text).signed negative = v) :
    (l.groupDerivation negative).value fn mode = v := by
  rw [← hv]
  exact Derivation.value_signedNumber negative (literalValue l.text)

private theorem rawValue_replaceAnswer (hv : (literalValue l.text).signed negative = v) {s : List Char} {x : Double}
    (h : rawValue fn mode (.value v) s = .ok x) (previous : PreviousAnswer) :
    rawValue fn mode previous (replaceAnswer (l.groupText negative) s) = .ok x := by
  obtain ⟨balanced, ts, post, hclosed, hlex, hpost, hvalue⟩ := rawValue_eq_ok_iff.1 h
  refine rawValue_eq_ok_iff.2 ⟨_, _, _, closeParentheses_replaceAnswer (l.openAfter_groupText negative) hclosed,
    lex_replaceAnswer l negative hlex previous,
    toPostfix_replaceOperand v (l.groupDerivation negative) (wellSpaced_of_lex hlex) hpost, ?_⟩
  rw [evalPostfix_replaceOperand (l.value_groupDerivation negative hv), hvalue]

/-- What a problem without its blanks is turned into; it becomes neither empty nor the word that calls for help. -/
private theorem cleanedValue_replaceAnswer (hv : (literalValue l.text).signed negative = v) {fix : Int} {s : List Char}
    {x : Double} (h : cleanedValue fn mode fix (.value v) s = .ok x) (previous : PreviousAnswer) :
    cleanedValue fn mode fix previous (replaceAnswer (l.groupText negative) s) = .ok x := by
  by_cases hempty : s = []
  · subst hempty
    exact h
  · by_cases hhelp : s = ['h', 'e', 'l', 'p']
    · rw [cleanedValue, if_pos hhelp] at h
      cases h
    · have hopening : replaceAnswer (l.groupText negative) s = s ∨ '(' ∈ replaceAnswer (l.groupText negative) s :=
        replaceAnswer_eq_or_mem List.mem_cons_self s
      have hhelp' : replaceAnswer (l.groupText negative) s ≠ ['h', 'e', 'l', 'p'] := by
        rcases hopening with heq | hmem
        · rwa [heq]
        · exact fun heq => absurd (heq ▸ hmem) (by decide)
      have hempty' : replaceAnswer (l.groupText negative) s ≠ [] := by
        rcases hopening with heq | hmem
        · rwa [heq]
        · exact List.ne_nil_of_mem hmem
      cases hraw : rawValue fn mode (.value v) s with
      | error e =>
        rw [cleanedValue, if_neg hhelp, if_neg (by simpa using hempty), hraw] at h
        cases h
      | ok y =>
        rw [cleanedValue_eq hhelp hempty hraw] at h
        rw [cleanedValue_eq hhelp' hempty' (rawValue_replaceAnswer l negative hv hraw previous), h]

private theorem evaluate_replaceSigned (hv : (literalValue l.text).signed negative = v) {fix : Int} {problem : String}
    {x : Double} (h : evaluate fn mode fix (.value v) problem = .ok x) (previous : PreviousAnswer) :
    evaluate fn mode fix previous (String.ofList (replaceAnswer (l.groupText negative) problem.toList)) = .ok x := by
  rw [evaluate, String.toList_ofList,
    removeBlanks_replaceAnswer (fun c hc => l.isBlank_of_mem_groupText negative hc)]
  exact cleanedValue_replaceAnswer l negative hv h previous

end Evaluation

/-- The previous answer behaves as a number in parentheses.  Let the literal be read as `v`.  A problem that has a value
for the previous answer `v` has the same value, whatever the previous answer is, when the literal in parentheses stands
in place of every `_`; and for the previous answer `-v` when the literal with a minus sign stands there. -/
theorem evaluate_replaceAnswer (fn : Elementary) (mode : AngleMode) (fix : Int) (l : Literal) {v : Double}
    (hv : readDouble l.text = some v) (problem : String) (r : Double) (previous : PreviousAnswer) :
    (evaluate fn mode fix (.value v) problem = .ok r →
      evaluate fn mode fix previous
        (String.ofList (replaceAnswer (['('] ++ l.text ++ [')']) problem.toList)) = .ok r) ∧
    (evaluate fn mode fix (.value v.neg) problem = .ok r →
      evaluate fn mode fix previous
        (String.ofList (replaceAnswer (['(', '-'] ++ l.text ++ [')']) problem.toList)) = .ok r) := by
  rw [l.readDouble_text, Option.some.injEq] at hv
  subst hv
  exact ⟨fun h => evaluate_replaceSigned l false (if_neg Bool.false_ne_true) h previous,
    fun h => evaluate_replaceSigned l true (if_pos rfl) h previous⟩

/-- The previous answer `-1.5` after a number, before a parenthesis and before itself. -/
theorem evaluate_replaceAnswer_product :
    evaluate .platform .degrees 3 .absent
        (String.ofList (replaceAnswer ['(', '-', '1', '.', '5', ')'] "2_(_+3) _".toList)) =
      .ok (Double.ofBits 0x401B000000000000) :=
  (evaluate_replaceAnswer .platform .degrees 3
    ⟨['1', '.', '5'], List.cons_ne_nil _ _, List.all_eq_true.1 (by decide), by decide, by decide⟩ (v := .ofBits 0x3FF8000000000000)
    (by decide +kernel) "2_(_+3) _" _ .absent).2 (by decide +kernel)

end DeskCalc
