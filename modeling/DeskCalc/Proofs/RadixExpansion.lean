import Mathlib.Tactic.Linarith
import DeskCalc.Proofs.NumeralValue

/-!
# Numerals in other bases

The digits after the point are taken off the fraction in rounds (`Rounds`): the product with the base is rounded to a
double, its integral part is a digit below the base, and taking the digit off leaves a fraction below one exactly.  So
what is lost are the roundings of the products, each of which weighs less than the one before, and in the end the
fraction that is left.

* In a base that is a power of two no product is rounded, so the numeral is the number cut off after its last place
  (`plainNumeral_truncates`).
* In every base the roundings together come to at most `2 ^ (-52)` (`Rounds.abs_sub_le`), so the numeral is that close
  to a number cut off there (`plainNumeral_near`).
-/

namespace DeskCalc

open Magnitude (unitsPerOne)

/-! ### Products -/

namespace Magnitude

/-- Rounding a whole number of units moves it by at most half a unit of its last place of 53 bits. -/
private theorem two_pow_mul_dist_le {q : Nat} {m : Magnitude} (h : nearest? q 1 = some m) :
    2 ^ 53 * Nat.dist q m.units ≤ q := by
  have hunits := units_of_nearest? h
  rw [Nat.div_one, Nat.one_mul] at hunits
  have hround := (two_mul_dist_roundDiv (n := q) (Nat.two_pow_pos (shiftFor q))).1
  have hshift := le_div_shiftFor q
  rw [← hunits] at hround
  rw [Nat.le_div_iff_mul_le (Nat.two_pow_pos _)] at hshift
  rcases hshift with hlarge | hzero
  · omega
  · -- a number of less than 53 bits is not rounded
    rw [hzero, Nat.pow_zero] at hround
    omega

/-- The product with a power of two is exact. -/
private theorem exists_units_mul_two_pow {k : Nat} (hk : k ≤ 5) {a : Magnitude} (h : a.units < unitsPerOne) :
    ∃ m : Magnitude, m.units = a.units * 2 ^ k := by
  have hbase : 2 ^ k ≤ 36 := Nat.le_trans (Nat.pow_le_pow_right (by decide) hk) (by decide)
  have hlarge : unitsPerOne * 36 < overflowUnits := by decide +kernel
  have hunits : a.units * 2 ^ k = a.mantissa * 2 ^ (a.shift + k) := by
    rw [units, Nat.pow_add, Nat.mul_assoc]
  rw [hunits]
  refine exists_units_eq a.mantissa_lt ?_
  rw [← hunits]
  exact Nat.lt_of_le_of_lt (Nat.mul_le_mul (Nat.le_of_lt h) hbase) hlarge

end Magnitude

namespace DigitStep

variable {b : Nat} {a m r : Magnitude}

/-- Taking the digit off is exact. -/
theorem value_eq (h : DigitStep b a m r) : m.value = m.whole + r.value :=
  m.value_eq_whole_add h.units_rest

theorem abs_sub_le (h : DigitStep b a m r) (lt_one : a.value < 1) : |m.value - a.value * b| ≤ b / 2 ^ 53 := by
  have hpos := Magnitude.cast_unitsPerOne_pos
  have hdist : (2 : ℚ) ^ 53 * |(m.units : ℚ) - (a.units * b : ℕ)| ≤ (a.units * b : ℕ) := by
    have hle : (2 : ℚ) ^ 53 * Nat.dist (a.units * b) m.units ≤ (a.units * b : ℕ) := by
      exact_mod_cast Magnitude.two_pow_mul_dist_le h.nearest
    exact le_trans (mul_le_mul_of_nonneg_left (abs_sub_eq_dist _ _).le (by positivity)) hle
  have hvalue : m.value - a.value * b = (m.units - a.units * b) / unitsPerOne := by
    rw [Magnitude.value, Magnitude.value, sub_div, div_mul_eq_mul_div]
  have hbase : (a.units : ℚ) * b ≤ b * unitsPerOne := by
    rw [mul_comm]
    rw [Magnitude.value_lt_one_iff] at lt_one
    exact mul_le_mul_of_nonneg_left (Nat.cast_le.2 (Nat.le_of_lt lt_one)) (Nat.cast_nonneg b)
  rw [Nat.cast_mul] at hdist
  rw [hvalue, abs_div, abs_of_pos hpos, div_le_div_iff₀ hpos (by positivity)]
  linarith

/-- In a base that is a power of two the product is exact. -/
theorem value_eq_mul {k : Nat} (hk : k ≤ 5) (h : DigitStep (2 ^ k) a m r) (lt_one : a.value < 1) :
    m.value = a.value * 2 ^ k := by
  obtain ⟨m', hm'⟩ := Magnitude.exists_units_mul_two_pow hk ((a.value_lt_one_iff).1 lt_one)
  have hnearest := h.nearest
  rw [← hm', ← Nat.mul_one m'.units, Magnitude.nearest?_units_mul Nat.one_pos, Option.some.injEq] at hnearest
  rw [← hnearest, Magnitude.value, Magnitude.value, hm', div_mul_eq_mul_div]
  push_cast
  rfl

end DigitStep

/-! ### Rounds -/

/-- The rounds that take the digits `ds` off the fraction `a` in base `b` and leave the fraction `last`.  In every round
the fraction is in the unit interval and not zero, the digit is below the base, and taking it off is exact. -/
inductive Rounds (b : Nat) : Magnitude → List Nat → Magnitude → Prop
  | done {a : Magnitude} (in_unit : a.value ∈ Set.Ico 0 1) : Rounds b a [] a
  | round {a m r last : Magnitude} {ds : List Nat} (ne_zero : a.value ≠ 0) (in_unit : a.value ∈ Set.Ico 0 1)
      (step : DigitStep b a m r) (digit_lt : m.whole < b) (rest_eq : r.value = m.value - m.whole)
      (rest : Rounds b r ds last) : Rounds b a (m.whole :: ds) last

/-- The digits of a fraction are taken off in at most as many rounds as digits are wanted, in fewer only if nothing is
left. -/
private theorem exists_rounds {b : Nat} (hb : 0 < b) (hle : b ≤ 36) (n : Nat) {a : Magnitude} (lt_one : a.value < 1) :
    ∃ last, Rounds b a (fractionDigits b n (.finite false a)) last ∧
      (fractionDigits b n (.finite false a)).length ≤ n ∧
      ((fractionDigits b n (.finite false a)).length = n ∨ last.value = 0) := by
  induction n generalizing a with
  | zero => exact ⟨a, .done ⟨a.value_nonneg, lt_one⟩, Nat.le_refl 0, .inl rfl⟩
  | succ n ih =>
    have hunit : a.value ∈ Set.Ico 0 1 := ⟨a.value_nonneg, lt_one⟩
    obtain ⟨m, r, hstep⟩ := exists_digitStep hb hle ((a.value_lt_one_iff).1 lt_one)
    rw [hstep.fractionDigits_succ]
    by_cases hzero : a.value = 0
    · rw [if_pos ((a.isZero_finite false).2 hzero)]
      exact ⟨a, .done hunit, Nat.zero_le _, .inr hzero⟩
    · rw [if_neg (mt (a.isZero_finite false).1 hzero)]
      obtain ⟨last, hrounds, hlength, hend⟩ := ih ((r.value_lt_one_iff).2 hstep.units_rest_lt)
      have hrest : r.value = m.value - m.whole := by
        rw [hstep.value_eq, add_sub_cancel_left]
      exact ⟨last, .round hzero hunit hstep hstep.digit_lt hrest hrounds, Nat.succ_le_succ hlength,
        hend.imp_left (congrArg Nat.succ)⟩

namespace Rounds

variable {b : Nat} {a last : Magnitude} {ds : List Nat}

private theorem last_lt_one (h : Rounds b a ds last) : last.value < 1 := by
  induction h with
  | done in_unit => exact in_unit.2
  | round _ _ _ _ _ _ ih => exact ih

theorem digit_lt (h : Rounds b a ds last) : ∀ d ∈ ds, d < b := by
  induction h with
  | done _ => exact nofun
  | round _ _ _ digit_lt _ _ ih => exact List.forall_mem_cons.2 ⟨digit_lt, ih⟩

/-- The roundings of all products together: each one is divided by the base as often as there were rounds. -/
theorem abs_sub_le (two_le : 2 ≤ b) (h : Rounds b a ds last) :
    |a.value - (fractionValue b ds + last.value / b ^ ds.length)| ≤ 1 / 2 ^ 52 := by
  induction h with
  | done _ =>
    rw [fractionValue_nil, List.length_nil, pow_zero, div_one, zero_add, sub_self, abs_zero]
    positivity
  | @round a m r last ds _ in_unit step _ _ _ ih =>
    have hb : (2 : ℚ) ≤ b := by exact_mod_cast two_le
    have hpos : (0 : ℚ) < b := by linarith
    have hproduct := step.abs_sub_le in_unit.2
    generalize hlater : r.value - (fractionValue b ds + last.value / b ^ ds.length) = later at ih
    generalize hhere : m.value - a.value * b = here at hproduct
    have herror : a.value - (fractionValue b (m.whole :: ds) + last.value / b ^ (m.whole :: ds).length) =
        (later - here) / b := by
      rw [← hlater, ← hhere, step.value_eq, fractionValue_cons (by omega), List.length_cons, pow_succ]
      field_simp
      ring
    have hsum : |later - here| ≤ 1 / 2 ^ 52 + b / 2 ^ 53 := (abs_sub _ _).trans (add_le_add ih hproduct)
    rw [herror, abs_div, abs_of_pos hpos, div_le_iff₀ hpos]
    linarith

/-- In a base that is a power of two the digits and the fraction that is left make up the fraction. -/
theorem value_eq {k : Nat} (hk : k ≤ 5) (h : Rounds (2 ^ k) a ds last) :
    a.value = fractionValue (2 ^ k) ds + last.value / (2 ^ k : ℕ) ^ ds.length := by
  induction h with
  | done _ => rw [fractionValue_nil, List.length_nil, pow_zero, div_one, zero_add]
  | @round a m r last ds _ in_unit step _ _ _ ih =>
    have hproduct := step.value_eq_mul hk in_unit.2
    rw [step.value_eq, ih] at hproduct
    have hpos : ((2 ^ k : ℕ) : ℚ) ≠ 0 := Nat.cast_ne_zero.2 (Nat.two_pow_pos k).ne'
    have hbase : (2 : ℚ) ^ k = (2 ^ k : ℕ) := by norm_cast
    rw [hbase] at hproduct
    rw [fractionValue_cons (Nat.two_pow_pos k).ne', List.length_cons, pow_succ, ← mul_left_inj' hpos, ← hproduct]
    field_simp
    ring

/-- What is left weighs less than the last of `n` places. -/
private theorem last_mul_lt (hb : 0 < b) {n : Nat} (h : Rounds b a ds last) (hend : ds.length = n ∨ last.value = 0) :
    last.value / b ^ ds.length * (b : ℚ) ^ n < 1 := by
  have hpow : (0 : ℚ) < (b : ℚ) ^ ds.length := pow_pos (Nat.cast_pos.2 hb) _
  rcases hend with rfl | hzero
  · rw [div_mul_cancel₀ _ hpow.ne']
    exact h.last_lt_one
  · rw [hzero, zero_div, zero_mul]
    exact one_pos

end Rounds

/-! ### Numerals -/

/-- A number on the grid of multiples of `1 / scale` that is less than one step below another one is that one cut off. -/
private theorem eq_floor_div {x y scale : ℚ} (hscale : 0 < scale) {z : ℤ} (hgrid : y * scale = z) (hle : y ≤ x)
    (hlt : (x - y) * scale < 1) : y = ⌊x * scale⌋ / scale := by
  have hfloor : ⌊x * scale⌋ = z := by
    rw [Int.floor_eq_iff, ← hgrid]
    exact ⟨mul_le_mul_of_nonneg_right hle hscale.le, by linarith⟩
  rw [hfloor, ← hgrid, mul_div_cancel_right₀ _ hscale.ne']

/-- Digits after a point denote a multiple of the last of `n` places. -/
private theorem exists_fractionValue_mul_pow {b n : Nat} (hb : 0 < b) {ds : List Nat} (h : ds.length ≤ n) :
    ∃ k : ℕ, fractionValue b ds * (b : ℚ) ^ n = k := by
  have hpow : (b : ℚ) ^ ds.length ≠ 0 := pow_ne_zero _ (Nat.cast_ne_zero.2 hb.ne')
  have hsplit : (b : ℚ) ^ n = b ^ ds.length * (b : ℚ) ^ (n - ds.length) := by
    rw [← pow_add, Nat.add_sub_cancel' h]
  refine ⟨digitsVal b ds * b ^ (n - ds.length), ?_⟩
  rw [fractionValue, hsplit, ← mul_assoc, div_mul_cancel₀ _ hpow]
  push_cast
  rfl

section Numerals

variable {b : Nat}

theorem exists_two_pow (h : b ∈ [2, 4, 8, 16, 32]) : ∃ k ≤ 5, b = 2 ^ k := by
  simp only [List.mem_cons, List.not_mem_nil, or_false] at h
  rcases h with rfl | rfl | rfl | rfl | rfl
  · exact ⟨1, by decide, rfl⟩
  · exact ⟨2, by decide, rfl⟩
  · exact ⟨3, by decide, rfl⟩
  · exact ⟨4, by decide, rfl⟩
  · exact ⟨5, by decide, rfl⟩

/-- What is written after the point are the digits that rounds take off what the integral part leaves. -/
private theorem exists_plainNumeral_rounds (two_le : 2 ≤ b) (le : b ≤ 36) (ne_ten : b ≠ 10) (n : Nat) (s : Bool)
    (a : Magnitude) :
    ∃ text first last, plainNumeral b n (.finite s a) = .ok text ∧
      (Double.finite false a).sub (.ofNat a.whole) = .finite false first ∧ a.value = a.whole + first.value ∧
      IsNumeral b a.whole (wholeFigures text) ∧ Rounds b first ((fractionFigures text).map digitValue) last ∧
      (fractionFigures text).length ≤ n ∧ ((fractionFigures text).length = n ∨ last.value = 0) := by
  obtain ⟨text, first, htext, hfirst, hunits, hwhole, hfraction⟩ :=
    exists_plainNumeral_figures two_le le ne_ten n s a
  have hrest : first.value < 1 := by
    rw [first.value_lt_one_iff, hunits]
    exact Nat.mod_lt _ Magnitude.unitsPerOne_pos
  obtain ⟨last, hrounds, hlength, hend⟩ := exists_rounds (by omega) le n hrest
  rw [← hfraction] at hrounds hlength hend
  rw [List.length_map] at hlength hend
  exact ⟨text, first, last, htext, hfirst, a.value_eq_whole_add hunits, hwhole, hrounds, hlength, hend⟩

/-- The numeral of a finite number in a base other than ten: the signs before the point are the numeral of the integral
part.  If the base is a power of two, the whole numeral denotes the number cut off after the last of `n` places, which is
the number itself exactly if it needs no more places. -/
theorem plainNumeral_truncates (two_le : 2 ≤ b) (le : b ≤ 36) (ne_ten : b ≠ 10) (n : Nat) (s : Bool) (a : Magnitude) :
    ∃ text, plainNumeral b n (.finite s a) = .ok text ∧
      IsNumeral b ⌊a.value⌋₊ (wholeFigures text) ∧
      (b ∈ [2, 4, 8, 16, 32] →
        numeralValue b text = ⌊a.value * (b : ℚ) ^ n⌋ / (b : ℚ) ^ n ∧
        (fractionFigures text).length ≤ n ∧ (∀ c ∈ fractionFigures text, digitValue c < b) ∧
        (numeralValue b text = a.value ↔ ∃ z : ℤ, a.value * (b : ℚ) ^ n = z)) := by
  obtain ⟨text, first, last, htext, -, hsplit, hwhole, hrounds, hlength, hend⟩ :=
    exists_plainNumeral_rounds two_le le ne_ten n s a
  refine ⟨text, htext, a.floor_value ▸ hwhole, fun hpower => ?_⟩
  have hscale : (0 : ℚ) < (b : ℚ) ^ n := pow_pos (Nat.cast_pos.2 (by omega)) n
  -- what the numeral leaves out is the fraction that is left in the end
  have hleft : a.value - numeralValue b text = last.value / (b : ℚ) ^ (fractionFigures text).length := by
    obtain ⟨k, hk, rfl⟩ := exists_two_pow hpower
    have hfirst := hrounds.value_eq hk
    rw [List.length_map] at hfirst
    rw [hwhole.numeralValue_eq, hsplit, hfirst]
    ring
  have hle : numeralValue b text ≤ a.value := by
    rw [← sub_nonneg, hleft]
    exact div_nonneg last.value_nonneg (by positivity)
  have hlt : (a.value - numeralValue b text) * (b : ℚ) ^ n < 1 := by
    rw [hleft, ← List.length_map digitValue]
    exact hrounds.last_mul_lt (by omega) (by rwa [List.length_map])
  obtain ⟨z, hgrid⟩ : ∃ z : ℤ, numeralValue b text * (b : ℚ) ^ n = z := by
    have hdigits : ((fractionFigures text).map digitValue).length ≤ n := by
      rwa [List.length_map]
    obtain ⟨k, hk⟩ := exists_fractionValue_mul_pow (b := b) (by omega) hdigits
    refine ⟨(a.whole * b ^ n + k : ℕ), ?_⟩
    rw [hwhole.numeralValue_eq, add_mul, hk]
    push_cast
    rfl
  have hcut := eq_floor_div hscale hgrid hle hlt
  refine ⟨hcut, hlength, fun c hc => hrounds.digit_lt _ (List.mem_map_of_mem hc), fun h => ⟨z, h ▸ hgrid⟩, ?_⟩
  rintro ⟨z, hz⟩
  rw [hcut, hz, Int.floor_intCast, ← hz, mul_div_cancel_right₀ _ hscale.ne']

/-- The number `-10.1`, which is `-a.1999...` in base 16. -/
theorem plainNumeral_truncates_hexadecimal :
    let a : Magnitude := ⟨0x14333333333333, 1025, by decide, by decide, .inl (by decide)⟩
    (2 ≤ 16 ∧ 16 ≤ 36 ∧ 16 ≠ 10 ∧ 16 ∈ [2, 4, 8, 16, 32]) ∧
      plainNumeral 16 3 (.finite true a) = .ok ['-', 'a', '.', '1', '9', '9'] ∧
      numeralValue 16 ['-', 'a', '.', '1', '9', '9'] = ⌊a.value * ((16 : ℕ) : ℚ) ^ 3⌋ / ((16 : ℕ) : ℚ) ^ 3 := by
  intro a
  have hwritten : plainNumeral 16 3 (.finite true a) = .ok ['-', 'a', '.', '1', '9', '9'] := by
    decide +kernel
  obtain ⟨text, htext, -, hpower⟩ := plainNumeral_truncates (b := 16) (by decide) (by decide) (by decide) 3 true a
  have hcut := (hpower (by decide)).1
  rw [Except.ok.inj (htext.symm.trans hwritten)] at hcut
  exact ⟨by decide, hwritten, hcut⟩

/-- A finite number in a base other than ten is written without trap.  The digits after the point are taken off what the
integral part leaves in at most `n` rounds, in fewer only if nothing is left, and the numeral denotes the number up to
less than one in the last of `n` places and `2 ^ (-52)`. -/
theorem plainNumeral_near (two_le : 2 ≤ b) (le : b ≤ 36) (ne_ten : b ≠ 10) (n : Nat) (s : Bool) (a : Magnitude) :
    ∃ text first last, plainNumeral b n (.finite s a) = .ok text ∧ RawNumeral.plain b n (.finite s a) = .ok text ∧
      (Double.finite false a).sub (.ofNat a.whole) = .finite false first ∧ first.value = a.value - ⌊a.value⌋₊ ∧
      Rounds b first ((fractionFigures text).map digitValue) last ∧
      (fractionFigures text).length ≤ n ∧ ((fractionFigures text).length = n ∨ last.value = 0) ∧
      |numeralValue b text - a.value| < 1 / (b : ℚ) ^ n + 1 / 2 ^ 52 := by
  obtain ⟨text, first, last, htext, hfirst, hsplit, hwhole, hrounds, hlength, hend⟩ :=
    exists_plainNumeral_rounds two_le le ne_ten n s a
  have hraw : RawNumeral.plain b n (.finite s a) = .ok text := by
    rw [RawNumeral.plain_eq, htext]
    rfl
  have hrest : first.value = a.value - ⌊a.value⌋₊ := by
    rw [a.floor_value, hsplit, add_sub_cancel_left]
  refine ⟨text, first, last, htext, hraw, hfirst, hrest, hrounds, hlength, hend, ?_⟩
  have hpow : (0 : ℚ) < (b : ℚ) ^ n := pow_pos (Nat.cast_pos.2 (by omega)) n
  have herror := abs_le.1 (hrounds.abs_sub_le two_le)
  have hlast_nonneg : 0 ≤ last.value / (b : ℚ) ^ ((fractionFigures text).map digitValue).length :=
    div_nonneg last.value_nonneg (by positivity)
  have hlast_lt : last.value / (b : ℚ) ^ ((fractionFigures text).map digitValue).length < 1 / (b : ℚ) ^ n :=
    (lt_div_iff₀ hpow).2 (hrounds.last_mul_lt (by omega) (by rwa [List.length_map]))
  rw [hwhole.numeralValue_eq, hsplit, abs_lt]
  constructor <;> linarith

/-- The largest double below one, in the largest base. -/
theorem plainNumeral_near_one :
    let a : Magnitude := ⟨2 ^ 53 - 1, 1021, by decide, by decide, .inl (by decide)⟩
    (2 ≤ 36 ∧ 36 ≤ 36 ∧ 36 ≠ 10) ∧ ∃ text, RawNumeral.plain 36 4 (.finite false a) = .ok text ∧
      |numeralValue 36 text - a.value| < 1 / ((36 : ℕ) : ℚ) ^ 4 + 1 / 2 ^ 52 := by
  intro a
  obtain ⟨text, _, _, -, htext, -, -, -, -, -, hnear⟩ :=
    plainNumeral_near (b := 36) (by decide) (by decide) (by decide) 4 false a
  exact ⟨by decide, text, htext, hnear⟩

end Numerals

end DeskCalc
