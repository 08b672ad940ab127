import Mathlib.Data.List.TakeWhile
import DeskCalc.Token.Lexing

/-!
# Numeric literals

A literal is a nonempty run of digits with at most one point among them, and not a point alone.  `readDouble` reads
it as the value that the token of the literal has (`Literal.readDouble_text`), so a literal stands for the number that its
text denotes anywhere else.
-/

namespace DeskCalc

/-- A numeric literal. -/
structure Literal where
  text : List Char
  ne_nil : text ≠ []
  isLiteralChar_of_mem : ∀ c ∈ text, isLiteralChar c = true
  count_point_le : text.count '.' ≤ 1
  ne_point : text ≠ ['.']

/-! ### The characters of a literal -/

/-- The characters of literals. -/
def literalChars : List Char :=
  ['0', '1', '2', '3', '4', '5', '6', '7', '8', '9', '.']

theorem isAsciiDigit_iff {c : Char} : isAsciiDigit c = true ↔ 48 ≤ c.toNat ∧ c.toNat ≤ 57 := by
  simp only [isAsciiDigit, Bool.and_eq_true, decide_eq_true_eq]
  exact Iff.rfl

theorem mem_literalChars {c : Char} (h : isLiteralChar c = true) : c ∈ literalChars := by
  simp only [isLiteralChar, Bool.or_eq_true, beq_iff_eq] at h
  rcases h with h | rfl
  · rw [isAsciiDigit_iff] at h
    have hc : c.toNat = 48 ∨ c.toNat = 49 ∨ c.toNat = 50 ∨ c.toNat = 51 ∨ c.toNat = 52 ∨ c.toNat = 53 ∨
        c.toNat = 54 ∨ c.toNat = 55 ∨ c.toNat = 56 ∨ c.toNat = 57 := by omega
    rw [← Char.ofNat_toNat c]
    rcases hc with hc | hc | hc | hc | hc | hc | hc | hc | hc | hc <;> rw [hc] <;> decide
  · decide

/-- What can be checked of the characters of literals one by one holds of each of them. -/
theorem of_isLiteralChar {p : Char → Bool} (hall : literalChars.all p = true) {c : Char}
    (h : isLiteralChar c = true) : p c = true :=
  List.all_eq_true.1 hall c (mem_literalChars h)

private theorem isAsciiDigit_of_isLiteralChar {c : Char} (h : isLiteralChar c = true) (hp : c ≠ '.') :
    isAsciiDigit c = true := by
  simp only [isLiteralChar, Bool.or_eq_true, beq_iff_eq] at h
  exact h.resolve_right hp

/-- The characters of decimals: those of literals, the signs and the letter before an exponent. -/
def decimalChars : List Char :=
  literalChars ++ ['+', '-', 'e']

/-- Reading a number changes no character of a decimal: it is no blank and no digit of another script. -/
private theorem readable_of_mem_decimalChars {c : Char} (h : c ∈ decimalChars) :
    isNumberBlank c = false ∧ toAsciiDigit c = c ∧ c ≠ '_' ∧ c.toLower = c ∧ c ≠ 'i' ∧ c ≠ 'n' := by
  have hall : decimalChars.all (fun c => decide (isNumberBlank c = false ∧ toAsciiDigit c = c ∧ c ≠ '_' ∧
      c.toLower = c ∧ c ≠ 'i' ∧ c ≠ 'n')) = true := by decide
  exact of_decide_eq_true (List.all_eq_true.1 hall c h)

/-! ### Reading a decimal -/

theorem dropWhile_eq_self {α : Type} {p : α → Bool} {l : List α} (h : ∀ a ∈ l, p a = false) :
    l.dropWhile p = l := by
  cases l with
  | nil => rfl
  | cons a l => rw [List.dropWhile_cons_of_neg (by simp [h a])]

private theorem stripBy_eq_self {p : Char → Bool} {s : List Char} (h : ∀ c ∈ s, p c = false) : stripBy p s = s := by
  have hrev : ∀ c ∈ s.reverse, p c = false := fun c hc => h c (List.mem_reverse.1 hc)
  rw [stripBy, dropWhile_eq_self h, dropWhile_eq_self hrev, List.reverse_reverse]

private theorem dropUnderscores_eq_self {s : List Char} (h : ∀ c ∈ s, c ≠ '_') (previous : Option Char) :
    dropUnderscores previous s = some s := by
  induction s generalizing previous with
  | nil => rfl
  | cons c s ih =>
    have hrest : ∀ d ∈ s, d ≠ '_' := fun d hd => h d (by simp [hd])
    rw [dropUnderscores.eq_def]
    change (if c = '_' then _ else _) = _
    rw [if_neg (h c (by simp)), ih hrest]
    rfl

private theorem numberChars_eq_self {s : List Char} (h : ∀ c ∈ s, c ∈ decimalChars) : numberChars s = some s := by
  have hread := fun c hc => readable_of_mem_decimalChars (h c hc)
  have hmap : s.map toAsciiDigit = s := by
    have hcongr := List.map_congr_left (fun c hc => (hread c hc).2.1)
    rw [hcongr, List.map_id']
  rw [numberChars, stripBy_eq_self (fun c hc => (hread c hc).1), hmap,
    dropUnderscores_eq_self (fun c hc => (hread c hc).2.2.1)]

private theorem mem_of_splitSign {s rest : List Char} {negative : Bool} (h : splitSign s = (negative, rest)) {c : Char}
    (hc : c ∈ rest) : c ∈ s := by
  unfold splitSign at h
  split at h <;> cases h
  · exact List.mem_cons_of_mem _ hc
  · exact List.mem_cons_of_mem _ hc
  · exact hc

/-- A literal has no sign. -/
theorem splitSign_cons {c : Char} (h : isLiteralChar c = true) (cs : List Char) :
    splitSign (c :: cs) = (false, c :: cs) := by
  have hall : literalChars.all (fun c => c != '-' && c != '+') = true := by decide
  have hc := of_isLiteralChar hall h
  unfold splitSign
  split
  · rename_i heq
    rw [(List.cons.inj heq).1] at hc
    cases hc
  · rename_i heq
    rw [(List.cons.inj heq).1] at hc
    cases hc
  · rfl

/-- A text of the characters of decimals is none of the words for infinity and NaN. -/
theorem readDouble_of_decimal {s rest : List Char} {negative : Bool} (h : ∀ c ∈ s, c ∈ decimalChars)
    (sign : splitSign s = (negative, rest)) : readDouble s = readDecimal negative rest := by
  have hread := fun c hc => readable_of_mem_decimalChars (h c (mem_of_splitSign sign hc))
  have hlower : rest.map Char.toLower = rest := by
    have hcongr := List.map_congr_left (fun c hc => (hread c hc).2.2.2.1)
    rw [hcongr, List.map_id']
  have hword : ∀ w : String, (∃ c ∈ w.toList, c = 'i' ∨ c = 'n') → (String.ofList rest == w) = false := by
    rintro w ⟨c, hc, hin⟩
    rw [beq_eq_false_iff_ne]
    rintro rfl
    rw [String.toList_ofList] at hc
    rcases hin with rfl | rfl
    · exact (hread _ hc).2.2.2.2.1 rfl
    · exact (hread _ hc).2.2.2.2.2 rfl
  have hinf := hword "inf" ⟨'i', by decide, .inl rfl⟩
  have hinfinity := hword "infinity" ⟨'i', by decide, .inl rfl⟩
  have hnan := hword "nan" ⟨'n', by decide, .inr rfl⟩
  rw [readDouble, numberChars_eq_self h]
  simp only [Option.bind_eq_bind, Option.bind_some, sign, hlower, hinf, hinfinity, hnan]
  rfl

/-! ### Reading a literal -/

namespace Literal

variable (l : Literal)

/-- After the digits before the point there is nothing, or the point and digits. -/
private theorem dropWhile_text : l.text.dropWhile isAsciiDigit = [] ∨
    ∃ ds : List Char, l.text.dropWhile isAsciiDigit = '.' :: ds ∧ ∀ d ∈ ds, isAsciiDigit d = true := by
  cases h : l.text.dropWhile isAsciiDigit with
  | nil => exact .inl rfl
  | cons c ds =>
    right
    have hsplit : l.text = l.text.takeWhile isAsciiDigit ++ c :: ds := by
      rw [← h, List.takeWhile_append_dropWhile]
    have hc : isAsciiDigit c = false := by
      have := List.head?_dropWhile_not isAsciiDigit l.text
      rw [h] at this
      simpa using this
    have hpoint : c = '.' := by
      refine Decidable.byContradiction fun hne => ?_
      have hlit := l.isLiteralChar_of_mem c (by rw [hsplit]; simp)
      rw [isAsciiDigit_of_isLiteralChar hlit hne] at hc
      exact Bool.noConfusion hc
    subst hpoint
    refine ⟨ds, rfl, fun d hd => ?_⟩
    have hlit := l.isLiteralChar_of_mem d (by rw [hsplit]; simp [hd])
    refine isAsciiDigit_of_isLiteralChar hlit ?_
    -- a second point would be one too many
    rintro rfl
    have hcount := l.count_point_le
    rw [hsplit, List.count_append, List.count_cons_self] at hcount
    have hpos := List.count_pos_iff.2 hd
    omega

private theorem readDecimal_text : readDecimal false l.text = some (literalValue l.text) := by
  have hall : ∀ {ds : List Char}, (∀ d ∈ ds, isAsciiDigit d = true) →
      ds.takeWhile isAsciiDigit = ds ∧ ds.dropWhile isAsciiDigit = [] := fun hds =>
    ⟨List.takeWhile_eq_self_iff.2 hds, List.dropWhile_eq_nil_iff.2 hds⟩
  rcases l.dropWhile_text with h | ⟨ds, h, hds⟩
  · have hwhole : l.text.takeWhile isAsciiDigit = l.text := by
      have := List.takeWhile_append_dropWhile (p := isAsciiDigit) (l := l.text)
      rwa [h, List.append_nil] at this
    simp [readDecimal, literalValue, h, hwhole, l.ne_nil, readExponent]
  · have hsome : ((l.text.takeWhile isAsciiDigit).isEmpty && ds.isEmpty) = false := by
      rw [← Bool.not_eq_true, Bool.and_eq_true, List.isEmpty_iff, List.isEmpty_iff]
      rintro ⟨hw, rfl⟩
      have := List.takeWhile_append_dropWhile (p := isAsciiDigit) (l := l.text)
      rw [hw, h] at this
      exact l.ne_point this.symm
    simp only [readDecimal, literalValue, h, hall hds, hsome, readExponent]
    simp

/-- A literal is read as the value of its token. -/
theorem readDouble_text : readDouble l.text = some (literalValue l.text) := by
  have hchars : ∀ c ∈ l.text, c ∈ decimalChars := fun c hc =>
    List.mem_append_left _ (mem_literalChars (l.isLiteralChar_of_mem c hc))
  have hsign : splitSign l.text = (false, l.text) := by
    cases h : l.text with
    | nil => rfl
    | cons c cs => exact splitSign_cons (l.isLiteralChar_of_mem c (by simp [h])) cs
  rw [readDouble_of_decimal hchars hsign, l.readDecimal_text]

end Literal

end DeskCalc
