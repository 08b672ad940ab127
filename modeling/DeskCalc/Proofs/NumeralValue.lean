import Mathlib.Algebra.Order.Floor.Semifield
import Mathlib.Data.Rat.Floor
import Mathlib.Tactic.FieldSimp
import Mathlib.Tactic.Ring
import DeskCalc.Proofs.RawNumeral

/-!
# The number that a numeral denotes

A numeral in any base is read apart from how it was written: `unsigned` takes the minus sign off, `wholeFigures` and
`fractionFigures` are what stands before and after the point, and `numeralValue` is the number that they denote.  A
finite double is a dyadic rational, the `Magnitude.value` of its magnitude.

What is written before the point is the numeral of the integral part (`isNumeral_numeral`), and what is written after it
are the digits that were taken off the rest (`exists_plainNumeral_figures`).
-/

namespace DeskCalc

open Magnitude (unitsPerOne)

/-! ### Magnitudes as numbers -/

theorem abs_sub_eq_dist (n m : Nat) : |(m : ℚ) - n| = Nat.dist n m := by
  rw [Nat.dist]
  rcases Nat.le_total n m with h | h
  · rw [abs_of_nonneg (sub_nonneg.2 (Nat.cast_le.2 h)), Nat.sub_eq_zero_of_le h, Nat.zero_add, Nat.cast_sub h]
  · rw [abs_sub_comm, abs_of_nonneg (sub_nonneg.2 (Nat.cast_le.2 h)), Nat.sub_eq_zero_of_le h, Nat.add_zero,
      Nat.cast_sub h]

namespace Magnitude

/-- The number that a magnitude is. -/
def value (a : Magnitude) : ℚ :=
  a.units / unitsPerOne

theorem cast_unitsPerOne_pos : (0 : ℚ) < unitsPerOne :=
  Nat.cast_pos.2 unitsPerOne_pos

variable (a : Magnitude)

theorem value_nonneg : 0 ≤ a.value :=
  div_nonneg (Nat.cast_nonneg _) cast_unitsPerOne_pos.le

theorem value_inj {a b : Magnitude} (h : a.value = b.value) : a = b := by
  rw [value, value, div_left_inj' cast_unitsPerOne_pos.ne', Nat.cast_inj] at h
  exact eq_of_units_eq h

theorem value_lt_value_iff {a b : Magnitude} : a.value < b.value ↔ a.units < b.units := by
  rw [value, value, div_lt_div_iff_of_pos_right cast_unitsPerOne_pos, Nat.cast_lt]

theorem value_eq_natCast {a : Magnitude} {n : Nat} (h : a.units = n * unitsPerOne) : a.value = n := by
  rw [value, h, Nat.cast_mul, mul_div_cancel_right₀ _ cast_unitsPerOne_pos.ne']

theorem value_lt_one_iff : a.value < 1 ↔ a.units < unitsPerOne := by
  rw [value, div_lt_one cast_unitsPerOne_pos, Nat.cast_lt]

theorem value_eq_zero_iff : a.value = 0 ↔ a.units = 0 := by
  rw [value, div_eq_zero_iff, or_iff_left cast_unitsPerOne_pos.ne', Nat.cast_eq_zero]

theorem isZero_finite (s : Bool) : (Double.finite s a).isZero = true ↔ a.value = 0 := by
  rw [Double.isZero, beq_iff_eq, ← a.units_eq_zero_iff, a.value_eq_zero_iff]

/-- The integral part and the rest make up the number. -/
theorem value_eq_whole_add {r : Magnitude} (h : r.units = a.units % unitsPerOne) : a.value = a.whole + r.value := by
  have hsplit : (a.units : ℚ) = a.whole * unitsPerOne + r.units := by
    rw [h, whole]
    exact_mod_cast (Nat.div_add_mod' a.units unitsPerOne).symm
  rw [value, value, hsplit, add_div, mul_div_cancel_right₀ _ cast_unitsPerOne_pos.ne']

theorem floor_value : ⌊a.value⌋₊ = a.whole :=
  Nat.floor_div_eq_div _ _

end Magnitude

/-! ### Figures -/

/-- The digit that a sign stands for. -/
def digitValue (c : Char) : Nat :=
  digitSigns.idxOf c

/-- A numeral without its minus sign. -/
def unsigned : List Char → List Char
  | '-' :: text => text
  | text => text

/-- The signs before the point. -/
def wholeFigures (text : List Char) : List Char :=
  (unsigned text).takeWhile (· != '.')

/-- The signs after the point. -/
def fractionFigures (text : List Char) : List Char :=
  ((unsigned text).dropWhile (· != '.')).tail

/-- The number that digits after a point denote in base `b`. -/
def fractionValue (b : Nat) (ds : List Nat) : ℚ :=
  digitsVal b ds / (b : ℚ) ^ ds.length

/-- The number that a numeral denotes in base `b`, apart from its sign. -/
def numeralValue (b : Nat) (text : List Char) : ℚ :=
  digitsVal b ((wholeFigures text).map digitValue) + fractionValue b ((fractionFigures text).map digitValue)

/-- The text is the numeral of `n` in base `b`: its digits denote `n`, and it does not begin with a zero unless it has no
other digit. -/
structure IsNumeral (b n : Nat) (text : List Char) : Prop where
  ne_nil : text ≠ []
  digit_lt : ∀ c ∈ text, digitValue c < b
  no_leading_zero : text.head? = some '0' → text = ['0']
  value_eq : digitsVal b (text.map digitValue) = n

theorem IsNumeral.numeralValue_eq {b n : Nat} {text : List Char} (h : IsNumeral b n (wholeFigures text)) :
    numeralValue b text = n + fractionValue b ((fractionFigures text).map digitValue) := by
  rw [numeralValue, h.value_eq]

/-! ### Digits -/

section Digits

variable {b : Nat}

theorem digitsVal_cons (b d : Nat) (ds : List Nat) : digitsVal b (d :: ds) = d * b ^ ds.length + digitsVal b ds := by
  induction ds using List.reverseRecOn with
  | nil => simp [digitsVal]
  | append_singleton ds e ih =>
    rw [← List.cons_append, digitsVal_append, digitsVal_append, ih, List.length_append, List.length_singleton,
      Nat.pow_succ, Nat.add_mul, Nat.mul_assoc, Nat.add_assoc]

theorem fractionValue_nil (b : Nat) : fractionValue b [] = 0 := by
  simp [fractionValue, digitsVal]

theorem fractionValue_cons (hb : b ≠ 0) (d : Nat) (ds : List Nat) :
    fractionValue b (d :: ds) = (d + fractionValue b ds) / b := by
  have hcast : (b : ℚ) ≠ 0 := Nat.cast_ne_zero.2 hb
  rw [fractionValue, fractionValue, digitsVal_cons, List.length_cons]
  push_cast
  field_simp
  ring

theorem digitValue_digitChar {d : Nat} (h : d < 36) : digitValue (digitChar d) = d := by
  have hall : ∀ d : Fin 36, digitValue (digitChar d.val) = d.val := by decide +kernel
  exact hall ⟨d, h⟩

private theorem map_digitValue_digitChar {ds : List Nat} (h : ∀ d ∈ ds, d < 36) :
    (ds.map digitChar).map digitValue = ds := by
  rw [List.map_map]
  refine (List.map_congr_left fun d hd => ?_).trans (List.map_id ds)
  exact digitValue_digitChar (h d hd)

theorem isNumeral_numeral (two_le : 2 ≤ b) (le : b ≤ 36) (n : Nat) : IsNumeral b n (numeral b n) := by
  have hdigits : ∀ d ∈ digits b n, d < 36 := fun d hd => Nat.lt_of_lt_of_le (digits_lt two_le n d hd) le
  refine ⟨numeral_ne_nil b n, fun c hc => ?_, fun hzero => ?_, ?_⟩
  · obtain ⟨d, hd, rfl⟩ := List.mem_map.1 hc
    rw [digitValue_digitChar (hdigits d hd)]
    exact digits_lt two_le n d hd
  · rcases Nat.eq_zero_or_pos n with rfl | hpos
    · rw [numeral, digits_of_lt (by omega)]
      rfl
    · obtain ⟨d, hd, hdpos, hdlt⟩ := head?_digits two_le hpos.ne'
      rw [numeral, List.head?_map, hd, Option.map_some, Option.some.injEq] at hzero
      have hvalue := digitValue_digitChar (Nat.lt_of_lt_of_le hdlt le)
      rw [hzero] at hvalue
      exact absurd hvalue.symm hdpos.ne'
  · rw [numeral, map_digitValue_digitChar hdigits, digitsVal_digits two_le]

end Digits

/-! ### Reading what was written -/

section Figures

variable {minus ws fs text : List Char}

/-- Without its minus sign the numeral has the same parts. -/
theorem NumeralParts.unsigned (h : NumeralParts minus ws fs text) : NumeralParts [] ws fs (unsigned text) := by
  refine ⟨?_, .inl rfl, h.ne_nil, h.mem_digitSigns⟩
  rw [h.text_eq, List.nil_append]
  rcases h.minus_eq with rfl | rfl
  · cases ws with
    | nil => exact absurd rfl h.ne_nil
    | cons c ws =>
      rw [List.nil_append, List.cons_append, DeskCalc.unsigned]
      rintro rest ⟨⟩
      exact absurd (h.mem_digitSigns '-' List.mem_cons_self) (by decide)
  · rfl

/-- The parts of a numeral are found again in its text. -/
private theorem NumeralParts.figures_eq (h : NumeralParts minus ws fs text) :
    wholeFigures text = ws ∧ fractionFigures text = fs := by
  obtain ⟨hwhole, hfraction⟩ := h.unsigned.split_eq
  refine ⟨hwhole, ?_⟩
  rw [fractionFigures, hfraction]
  split
  · rename_i hnil
    exact hnil.symm
  · rfl

end Figures

/-- In a base other than ten the integral part of the magnitude is written before the point, and after it the digits of
what the integral part leaves. -/
theorem exists_plainNumeral_figures {b : Nat} (two_le : 2 ≤ b) (le : b ≤ 36) (ne_ten : b ≠ 10) (n : Nat) (s : Bool)
    (a : Magnitude) :
    ∃ text r, plainNumeral b n (.finite s a) = .ok text ∧
      (Double.finite false a).sub (.ofNat a.whole) = .finite false r ∧ r.units = a.units % unitsPerOne ∧
      IsNumeral b a.whole (wholeFigures text) ∧
      (fractionFigures text).map digitValue = fractionDigits b n (.finite false r) := by
  obtain ⟨r, hr, hunits, hparts⟩ := exists_numeralParts_radix two_le le n s a
  obtain ⟨hws, hfs⟩ := hparts.figures_eq
  have hdigits := fractionDigits_lt (by omega) le n (hunits ▸ Nat.mod_lt a.units Magnitude.unitsPerOne_pos)
  refine ⟨signOf s a ++ radixNumeral b n a, r, ?_, hr, hunits, ?_, ?_⟩
  · rw [plainNumeral, if_neg (by omega)]
    simp only [Int.toNat_natCast]
    rw [if_neg (by omega)]
  · rw [hws]
    exact isNumeral_numeral two_le le a.whole
  · rw [hfs, map_digitValue_digitChar fun d hd => Nat.lt_of_lt_of_le (hdigits d hd) le]

end DeskCalc
