import DeskCalc.Proofs.CorrectRounding
import DeskCalc.Proofs.RawKernel

/-!
# Quotients

The quotient is that of the standard for floating-point numbers (`IsQuotient`): rounded correctly, infinite with the sign
of both operands if it is too large or the divisor is zero, and NaN where it is not defined.  That determines it, and the
kernel gives it for all doubles (`divide_eq_iff`).
-/

namespace DeskCalc

open Magnitude (unitsPerOne overflowUnits)

/-! ### Quotients of finite numbers -/

/-- Half a unit of the last place above the largest magnitude. -/
def overflowValue : ℚ :=
  2 ^ 1024 - 2 ^ 970

section Quotient

variable {a b : Magnitude}

private theorem overflowValue_eq : overflowValue = (overflowUnits : ℚ) / unitsPerOne := by
  have hcast : ∀ e : ℕ, ((2 ^ e : ℕ) : ℚ) = 2 ^ e := fun e => Nat.cast_pow 2 e
  have hpow : (2 : ℚ) ^ 2044 = 2 ^ 970 * 2 ^ 1074 := by rw [← pow_add]
  have hunits : (overflowUnits : ℚ) = (2 ^ 54 - 1) * 2 ^ 2044 := by
    rw [overflowUnits, Nat.cast_mul, Nat.cast_sub Nat.one_le_two_pow, hcast, hcast, Nat.cast_one]
  rw [hunits, hpow, unitsPerOne, hcast, ← mul_assoc, mul_div_cancel_right₀ _ (pow_ne_zero _ two_ne_zero), overflowValue,
    sub_mul, ← pow_add, one_mul]

private theorem value_div_value_eq :
    a.value / b.value = ((a.units * unitsPerOne : ℕ) : ℚ) / (b.units * unitsPerOne) := by
  have hne := Magnitude.cast_unitsPerOne_pos.ne'
  rw [Magnitude.value, Magnitude.value, div_div_div_cancel_right₀ hne, Nat.cast_mul, mul_div_mul_right _ _ hne]

private theorem overflowValue_le_div_iff (hb : 0 < b.units) :
    overflowValue ≤ a.value / b.value ↔ overflowUnits * b.units ≤ a.units * unitsPerOne := by
  have hone := Magnitude.cast_unitsPerOne_pos
  have hscale : (0 : ℚ) < b.units * unitsPerOne := mul_pos (Nat.cast_pos.2 hb) hone
  rw [value_div_value_eq, overflowValue_eq, div_le_div_iff₀ hone hscale, ← mul_assoc, mul_le_mul_iff_left₀ hone]
  exact_mod_cast Iff.rfl

/-- A result is rounded correctly, and it is infinite if it is too large. -/
private theorem ofUnits_cases {num den : Nat} (hden : 0 < den) (s : Bool) :
    (∃ r : Magnitude, Double.ofUnits s num den = .finite s r ∧ ¬overflowUnits * den ≤ num ∧
      r.IsNearest (num / (den * unitsPerOne))) ∨
      Double.ofUnits s num den = .infinite s ∧ overflowUnits * den ≤ num := by
  rcases Option.eq_none_or_eq_some (Magnitude.nearest? num den) with h | ⟨r, h⟩
  · exact .inr ⟨Double.ofUnits_eq_infinite h s, (Magnitude.nearest?_eq_none_iff hden).1 h⟩
  · refine .inl ⟨r, Double.ofUnits_eq h s, fun hle => ?_, Magnitude.isNearest_of_nearest? hden h⟩
    have hnone := (Magnitude.nearest?_eq_none_iff hden).2 hle
    rw [h] at hnone
    cases hnone

private theorem ofRatio_units_cases (hb : 0 < b.units) (s : Bool) :
    (∃ r : Magnitude, Double.ofRatio s a.units b.units = .finite s r ∧ a.value / b.value < overflowValue ∧
      r.IsNearest (a.value / b.value)) ∨
      Double.ofRatio s a.units b.units = .infinite s ∧ overflowValue ≤ a.value / b.value := by
  have hoverflow := overflowValue_le_div_iff (a := a) hb
  rcases ofUnits_cases hb s with ⟨r, hr, hlt, hnear⟩ | ⟨hr, hle⟩
  · exact .inl ⟨r, hr, not_le.1 (mt hoverflow.1 hlt), value_div_value_eq ▸ hnear⟩
  · exact .inr ⟨hr, hoverflow.2 hle⟩

end Quotient

/-! ### All quotients -/

/-- The quotient of two doubles. -/
inductive IsQuotient : Double → Double → Double → Prop
  | nan_left (y : Double) : IsQuotient .nan y .nan
  | nan_right (x : Double) : IsQuotient x .nan .nan
  | zeros {a b : Magnitude} (s t : Bool) (ha : a.value = 0) (hb : b.value = 0) :
      IsQuotient (.finite s a) (.finite t b) .nan
  | infinities (s t : Bool) : IsQuotient (.infinite s) (.infinite t) .nan
  | infinite_left (s t : Bool) (b : Magnitude) : IsQuotient (.infinite s) (.finite t b) (.infinite (s ^^ t))
  | infinite_right (s t : Bool) (a : Magnitude) : IsQuotient (.finite s a) (.infinite t) (.zero (s ^^ t))
  | pole {a b : Magnitude} (s t : Bool) (ha : a.value ≠ 0) (hb : b.value = 0) :
      IsQuotient (.finite s a) (.finite t b) (.infinite (s ^^ t))
  | rounded {a b r : Magnitude} (s t : Bool) (hb : b.value ≠ 0) (hlt : a.value / b.value < overflowValue)
      (hr : r.IsNearest (a.value / b.value)) : IsQuotient (.finite s a) (.finite t b) (.finite (s ^^ t) r)
  | overflow {a b : Magnitude} (s t : Bool) (hb : b.value ≠ 0) (hle : overflowValue ≤ a.value / b.value) :
      IsQuotient (.finite s a) (.finite t b) (.infinite (s ^^ t))

theorem IsQuotient.unique {x y z z' : Double} (h : IsQuotient x y z) (h' : IsQuotient x y z') : z = z' := by
  cases h <;> cases h'
  all_goals first
    | rfl
    | contradiction
    | skip
  case rounded.rounded hr _ _ _ hr' => rw [hr.unique hr']
  case rounded.overflow hlt _ _ hle => exact absurd hle (not_le.2 hlt)
  case overflow.rounded hle _ _ hlt _ => exact absurd hle (not_le.2 hlt)

private theorem isQuotient_finite (s t : Bool) (a b : Magnitude) :
    IsQuotient (.finite s a) (.finite t b) (Kernel.divide (.finite s a) (.finite t b)) := by
  by_cases hb : b.value = 0
  · rw [Kernel.divide, if_pos ((b.isZero_finite t).2 hb)]
    by_cases ha : a.value = 0
    · rw [if_pos (by rw [(a.isZero_finite s).2 ha]; rfl)]
      exact .zeros s t ha hb
    · have hzero : ¬((Double.finite s a).isZero || (Double.finite s a).isNaN) = true := by
        rw [Bool.or_eq_true, not_or]
        exact ⟨mt (a.isZero_finite s).1 ha, Bool.noConfusion⟩
      rw [if_neg hzero]
      exact .pole s t ha hb
  · have hunits : b.units ≠ 0 := mt b.value_eq_zero_iff.2 hb
    have hquotient : Kernel.divide (.finite s a) (.finite t b) = .ofRatio (s ^^ t) a.units b.units := by
      rw [Kernel.divide, if_neg (mt (b.isZero_finite t).1 hb)]
      exact if_neg (mt b.units_eq_zero_iff.2 hunits)
    rw [hquotient]
    rcases ofRatio_units_cases (a := a) (Nat.pos_of_ne_zero hunits) (s ^^ t) with ⟨r, hr, hlt, hnear⟩ | ⟨hr, hle⟩
    · rw [hr]
      exact .rounded s t hb hlt hnear
    · rw [hr]
      exact .overflow s t hb hle

/-- The kernel gives the quotient of any two doubles. -/
private theorem isQuotient_divide (x y : Double) : IsQuotient x y (Kernel.divide x y) := by
  match x, y with
  | .nan, .nan => exact .nan_left _
  | .nan, .infinite _ => exact .nan_left _
  | .nan, .finite t b =>
    have hnan : Kernel.divide .nan (.finite t b) = .nan := by
      rw [Kernel.divide]
      split <;> rfl
    rw [hnan]
    exact .nan_left _
  | .infinite _, .nan => exact .nan_right _
  | .finite _ _, .nan => exact .nan_right _
  | .infinite s, .infinite t => exact .infinities s t
  | .infinite s, .finite t b =>
    have hinfinite : Kernel.divide (.infinite s) (.finite t b) = .infinite (s ^^ t) := by
      rw [Kernel.divide]
      split <;> rfl
    rw [hinfinite]
    exact .infinite_left s t b
  | .finite s a, .infinite t => exact .infinite_right s t a
  | .finite s a, .finite t b => exact isQuotient_finite s t a b

theorem divide_eq_iff {x y z : Double} : Kernel.divide x y = z ↔ IsQuotient x y z := by
  constructor
  · rintro rfl
    exact isQuotient_divide x y
  · exact (isQuotient_divide x y).unique

end DeskCalc
