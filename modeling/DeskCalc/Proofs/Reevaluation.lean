import Mathlib.Algebra.Group.Defs
import DeskCalc.Calculation
import DeskCalc.Elementary.Platform
import DeskCalc.Proofs.ConversionStep
import DeskCalc.Proofs.DecimalText
import DeskCalc.Proofs.Expression
import DeskCalc.Proofs.Scanning

/-!
# Results evaluate to themselves

Evaluating the decimal numeral of a number with `fix` decimal places is the same as rounding the number to `fix`
places, and rounding twice is the same as rounding once.  So every finite result is a fixed point: its numeral
evaluates to it again (`evaluate_plainNumeral`).

Results are compared as numbers, since the numeral of a negative zero has no sign.
-/

namespace DeskCalc

variable {fn : Elementary} {mode : AngleMode} {previous : PreviousAnswer}

/-! ### From a text to its value -/

/-- A value is what comes out of the four stages, one after another. -/
theorem rawValue_eq_ok_iff {cleaned : List Char} {x : Double} :
    rawValue fn mode previous cleaned = .ok x ↔
      ∃ balanced tokens postfixed, closeParentheses cleaned = .ok balanced ∧ lex previous balanced = .ok tokens ∧
        toPostfix tokens = .ok postfixed ∧ evalPostfix fn mode postfixed = .ok x := by
  constructor
  · intro h
    obtain ⟨balanced, hclosed, h⟩ := exists_of_bind_eq_ok h
    obtain ⟨tokens, hlex, h⟩ := exists_of_bind_eq_ok h
    obtain ⟨postfixed, hpostfix, h⟩ := exists_of_bind_eq_ok h
    exact ⟨balanced, tokens, postfixed, hclosed, hlex, hpostfix, h⟩
  · rintro ⟨balanced, tokens, postfixed, hclosed, hlex, hpostfix, h⟩
    simp only [rawValue, bind, Except.bind, hclosed, hlex, hpostfix, h]

/-- A text whose tokens are those of a tree has the value of the tree. -/
private theorem rawValue_eq {cleaned balanced : List Char} (hclosed : closeParentheses cleaned = .ok balanced)
    {e : Derivation .sum} (hlex : lex previous balanced = .ok e.yield) :
    rawValue fn mode previous cleaned = .ok (e.value fn mode) :=
  rawValue_eq_ok_iff.2 ⟨balanced, e.yield, e.postorder, hclosed, hlex, toPostfix_yield e, evalPostfix_postorder e⟩

/-- A value is rounded in the end. -/
theorem cleanedValue_eq {cleaned : List Char} {x : Double} {fix : Int} (hhelp : cleaned ≠ ['h', 'e', 'l', 'p'])
    (hempty : cleaned ≠ []) (h : rawValue fn mode previous cleaned = .ok x) :
    cleanedValue fn mode fix previous cleaned = (roundToPlaces x fix).mapError .setting := by
  rw [cleanedValue, if_neg hhelp, if_neg (by simpa using hempty), h]
  rfl

/-- The characters of numbers, operators and the previous answer: no blanks, parentheses or letters. -/
def plainChars : List Char :=
  literalChars ++ ['+', '-', '*', '/', '^', '_']

/-- A text of plain characters whose items have the tokens of a tree is evaluated by rounding the value of the tree. -/
theorem evaluate_of_spells {text : List Char} {items : List Item} {e : Derivation .sum} (fix : Int)
    (spelled : Spells previous.number? items text) (tokens : Item.tokensOf (previous.number?.getD .nan) items = e.yield)
    (plain : ∀ c ∈ text, c ∈ plainChars) (ne_nil : text ≠ []) :
    evaluate fn mode fix previous (String.ofList text) = (roundToPlaces (e.value fn mode) fix).mapError .setting := by
  have hclean : removeBlanks text = text := by
    have hall : plainChars.all (fun c => !isBlank c) = true := by decide
    exact List.filter_eq_self.2 fun c hc => List.all_eq_true.1 hall c (plain c hc)
  have hclosed : closeParentheses text = .ok text :=
    closeParentheses_of_not_mem (fun h => absurd (plain _ h) (by decide)) (fun h => absurd (plain _ h) (by decide))
  have hhelp : text ≠ ['h', 'e', 'l', 'p'] := by
    rintro rfl
    exact absurd (plain 'h' List.mem_cons_self) (by decide)
  have hlex := spelled.lex_eq
  rw [tokens] at hlex
  rw [evaluate, String.toList_ofList, hclean]
  exact cleanedValue_eq hhelp ne_nil (rawValue_eq hclosed hlex)

/-! ### Evaluating a number with a sign -/

/-- A minus sign, or nothing. -/
def minusSign (negative : Bool) : List Char :=
  if negative then ['-'] else []

/-- The tree of a number with a sign. -/
def Derivation.signedNumber (negative : Bool) (x : Double) : Derivation .sum :=
  let u : Derivation .signed := .ofAtom (.number x)
  .ofProduct (.ofPower (.ofSigned (if negative then .minus u else u)))

/-- The value of a number with a sign. -/
def Double.signed (negative : Bool) (x : Double) : Double :=
  if negative then x.neg else x

theorem Derivation.value_signedNumber (negative : Bool) (x : Double) :
    (signedNumber negative x).value fn mode = x.signed negative := by
  cases negative <;> rfl

namespace Literal

/-- The items of a literal with a sign. -/
def signedItems (l : Literal) (negative : Bool) : List Item :=
  if negative then [.operator .subtract (by decide), .literal l] else [.literal l]

variable (l : Literal) (negative : Bool)

theorem spells_signedItems (answer : Option Double) :
    Spells answer (l.signedItems negative) (minusSign negative ++ l.text) := by
  cases negative with
  | false => exact ⟨⟨trivial, nofun, trivial⟩, List.append_nil l.text⟩
  | true => exact ⟨⟨trivial, nofun, trivial, nofun, trivial⟩, congrArg ('-' :: ·) (List.append_nil l.text)⟩

private theorem tokensOf_signedItems (answer : Double) :
    Item.tokensOf answer (l.signedItems negative) = (Derivation.signedNumber negative (literalValue l.text)).yield := by
  have htoken : (Item.literal l).token answer = .number (literalValue l.text) := by
    rw [Item.token, l.readDouble_text, Option.getD_some]
  generalize literalValue l.text = x at htoken
  cases negative with
  | false => exact congrArg (fun t => [t]) htoken
  | true => exact congrArg (fun t => [Token.operator .subtract, t]) htoken

/-- The characters of a literal with a sign. -/
theorem mem_signed {c : Char} (h : c ∈ minusSign negative ++ l.text) : c = '-' ∨ isLiteralChar c = true := by
  rcases List.mem_append.1 h with h | h
  · rw [minusSign] at h
    split at h
    · exact .inl (List.mem_singleton.1 h)
    · cases h
  · exact .inr (l.isLiteralChar_of_mem c h)

theorem not_mem_signed {c : Char} (hminus : c ≠ '-') (hliteral : isLiteralChar c = false) :
    c ∉ minusSign negative ++ l.text := by
  intro hmem
  rcases l.mem_signed negative hmem with h | h
  · exact hminus h
  · rw [hliteral] at h
    exact Bool.noConfusion h

/-- A literal with a sign is evaluated by rounding its value. -/
theorem evaluate_signed (fix : Int) :
    evaluate fn mode fix previous (String.ofList (minusSign negative ++ l.text)) =
      (roundToPlaces ((literalValue l.text).signed negative) fix).mapError .setting := by
  have hplain : ∀ c ∈ minusSign negative ++ l.text, c ∈ plainChars := by
    intro c hc
    rcases l.mem_signed negative hc with rfl | h
    · decide
    · exact List.mem_append_left _ (mem_literalChars h)
  have hvalue : (Derivation.signedNumber negative (literalValue l.text)).value fn mode =
      (literalValue l.text).signed negative := Derivation.value_signedNumber negative _
  rw [← hvalue]
  exact evaluate_of_spells fix (l.spells_signedItems negative previous.number?) (l.tokensOf_signedItems negative _) hplain
    (List.append_ne_nil_of_right_ne_nil _ l.ne_nil)

end Literal

/-! ### Numerals of doubles -/

section Numeral

variable {fix : Int}

private theorem plainNumeral_finite (hfix : 0 ≤ fix) (hlt : fix.toNat < 2 ^ 31) (s : Bool) (a : Magnitude) :
    plainNumeral 10 fix (.finite s a) = .ok (minusSign (s && a.mantissa != 0) ++ a.trimmed fix.toNat) := by
  rw [plainNumeral, if_neg (by decide)]
  simp only [if_pos, decimalPlaces_eq_ok hfix hlt]
  rfl

theorem roundToPlaces_eq (hfix : 0 ≤ fix) (x : Double) : roundToPlaces x fix = .ok (x.roundTo fix.toNat) :=
  if_neg (by omega)

namespace Double

theorem numEq_self {x : Double} (h : x.isFinite = true) : x.numEq x = true := by
  cases x with
  | finite s a => simp [numEq, key]
  | nan => cases h
  | infinite s => cases h

/-- The sign of a zero does not matter to the rounded number. -/
private theorem numEq_roundTo_sign (places : Nat) (s : Bool) (a : Magnitude) :
    (roundTo places (finite (s && a.mantissa != 0) a)).numEq (roundTo places (finite s a)) = true := by
  by_cases hzero : a.mantissa = 0
  · have ha : a = Magnitude.zero := by
      refine Magnitude.eq_of_units_eq ?_
      rw [Magnitude.units_zero, a.units_eq_zero_iff]
      exact hzero
    have hround : ∀ s, roundTo places (finite s a) = zero s := by
      intro s
      rw [ha]
      exact roundTo_zero places s
    have hzeros : ∀ s t, (zero s).numEq (zero t) = true := by decide
    rw [hround, hround]
    exact hzeros _ s
  · have hsign : (s && a.mantissa != 0) = s := by simp [hzero]
    obtain ⟨b, hb, -⟩ := exists_roundTo places s a
    rw [hsign, hb]
    exact numEq_self rfl

end Double

/-- The numeral of a finite number evaluates to the rounded number, up to the sign of zero. -/
theorem exists_evaluate_numeral (fn : Elementary) (hfix : 0 ≤ fix) (hlt : fix.toNat < 2 ^ 31) {x : Double}
    (hx : x.isFinite = true) :
    ∃ text, plainNumeral 10 fix x = .ok text ∧ ∀ mode previous,
      ∃ v, evaluate fn mode fix previous (String.ofList text) = .ok v ∧ v.numEq (x.roundTo fix.toNat) = true := by
  cases x with
  | nan => cases hx
  | infinite s => cases hx
  | finite s a =>
    refine ⟨_, plainNumeral_finite hfix hlt s a, fun mode previous => ?_⟩
    obtain ⟨l, htext, hvalue⟩ := a.exists_literal_trimmed fix.toNat
    obtain ⟨b, hb, hround⟩ := Double.exists_nearest?_written fix.toNat a
    rw [Double.ofRatio_eq hb] at hvalue
    have hsigned : ∀ negative, (Double.finite false b).signed negative = .finite negative b := by
      intro negative
      cases negative <;> rfl
    refine ⟨_, ?_, Double.numEq_roundTo_sign fix.toNat s a⟩
    rw [← htext, l.evaluate_signed, hvalue, hsigned, roundToPlaces_eq hfix, hround]
    rfl

/-- A result is not changed by rounding it again. -/
theorem roundTo_of_evaluate (hfix : 0 ≤ fix) {problem : String} {v : Double}
    (h : evaluate fn mode fix previous problem = .ok v) : v.roundTo fix.toNat = v := by
  rw [evaluate, cleanedValue] at h
  split at h
  · cases h
  · split at h
    · cases h
      exact Double.roundTo_zero fix.toNat false
    · cases hraw : rawValue fn mode previous (removeBlanks problem.toList) with
      | error e =>
        rw [hraw] at h
        cases h
      | ok x =>
        rw [hraw] at h
        change (roundToPlaces x fix).mapError Fault.setting = .ok v at h
        rw [roundToPlaces_eq hfix] at h
        cases h
        exact Double.roundTo_roundTo fix.toNat x

/-- Writing a finite number with `fix` decimal places and evaluating the numeral gives the rounded number, and rounding
it again changes nothing.  So the numeral of every finite result evaluates to the result. -/
theorem evaluate_plainNumeral (fn : Elementary) (hfix : 0 ≤ fix) (hlt : fix.toNat < 2 ^ 31) :
    (∀ x : Double, x.isFinite = true →
      ∃ text rounded, plainNumeral 10 fix x = .ok text ∧ roundToPlaces x fix = .ok rounded ∧
        roundToPlaces rounded fix = .ok rounded ∧
        ∀ mode previous,
          ∃ v, evaluate fn mode fix previous (String.ofList text) = .ok v ∧ v.numEq rounded = true) ∧
    ∀ mode previous problem v, evaluate fn mode fix previous problem = .ok v → v.isFinite = true →
      ∃ text, plainNumeral 10 fix v = .ok text ∧
        ∀ mode' previous',
          ∃ w, evaluate fn mode' fix previous' (String.ofList text) = .ok w ∧ w.numEq v = true := by
  constructor
  · intro x hx
    obtain ⟨text, htext, heval⟩ := exists_evaluate_numeral fn hfix hlt hx
    refine ⟨text, x.roundTo fix.toNat, htext, roundToPlaces_eq hfix x, ?_, heval⟩
    rw [roundToPlaces_eq hfix, Double.roundTo_roundTo]
  · intro mode previous problem v hv hfinite
    obtain ⟨text, htext, heval⟩ := exists_evaluate_numeral fn hfix hlt hfinite
    rw [roundTo_of_evaluate hfix hv] at heval
    exact ⟨text, htext, heval⟩

/-- Two and a half, half way between two whole numbers. -/
theorem evaluate_plainNumeral_tie :
    ∃ text rounded, plainNumeral 10 0 (.ofBits 0x4004000000000000) = .ok text ∧
      roundToPlaces (.ofBits 0x4004000000000000) 0 = .ok rounded ∧ roundToPlaces rounded 0 = .ok rounded ∧
        ∀ mode previous,
          ∃ v, evaluate .platform mode 0 previous (String.ofList text) = .ok v ∧ v.numEq rounded = true :=
  (evaluate_plainNumeral .platform (by decide) (by decide)).1 (.ofBits 0x4004000000000000) (by decide +kernel)

end Numeral

end DeskCalc
