import Mathlib.Tactic.Linarith
import DeskCalc.Proofs.NumeralValue
import DeskCalc.Proofs.RawKernel

/-!
# Halves away from zero

The nearest whole number to a magnitude is the integral part of what is half more (`nearestWhole`), so a half goes up,
and the sign of the number is put before it.  The result is exact for every finite double (`RoundsHalfAway`): below
`2 ^ 52` the whole number is a double, and from there on all doubles are whole (`Magnitude.isWhole_of_large`), so nothing
is to be rounded.

Rounding is an odd function and keeps the order, across that limit as well (`roundHalfAway_exact`).
-/

namespace DeskCalc

open Magnitude (unitsPerOne)

/-- The nearest whole number to a number that is not negative, the larger one of two that are equally near. -/
def nearestWhole (q : ℚ) : ℕ :=
  ⌊q + 1 / 2⌋₊

section NearestWhole

variable {q : ℚ} (hq : 0 ≤ q)

include hq

private theorem nearestWhole_bounds : (nearestWhole q : ℚ) ≤ q + 1 / 2 ∧ q < nearestWhole q + 1 / 2 := by
  have hle : (nearestWhole q : ℚ) ≤ q + 1 / 2 := Nat.floor_le (by positivity)
  have hlt : q + 1 / 2 < nearestWhole q + 1 := Nat.lt_floor_add_one _
  exact ⟨hle, by linarith⟩

private theorem abs_nearestWhole_sub_le : |(nearestWhole q : ℚ) - q| ≤ 1 / 2 := by
  obtain ⟨hle, hlt⟩ := nearestWhole_bounds hq
  rw [abs_le]
  constructor <;> linarith

/-- A tie goes up. -/
private theorem lt_nearestWhole_of_abs_eq (h : |(nearestWhole q : ℚ) - q| = 1 / 2) : q < nearestWhole q := by
  obtain ⟨-, hlt⟩ := nearestWhole_bounds hq
  rcases abs_choice ((nearestWhole q : ℚ) - q) with habs | habs
  all_goals
    rw [habs] at h
    linarith

end NearestWhole

private theorem nearestWhole_natCast (n : ℕ) : nearestWhole n = n := by
  rw [nearestWhole, Nat.floor_eq_iff (by positivity)]
  constructor <;> linarith

private theorem nearestWhole_mono {p q : ℚ} (h : p ≤ q) : nearestWhole p ≤ nearestWhole q :=
  Nat.floor_mono (by linarith)

/-! ### Magnitudes -/

namespace Magnitude

/-- From `2 ^ 52` on there is no place for a fraction. -/
theorem isWhole_of_large {a : Magnitude} (h : 2 ^ 52 ≤ a.whole) : a.units % unitsPerOne = 0 := by
  have hunits : 2 ^ 52 * unitsPerOne ≤ a.units := (Nat.le_div_iff_mul_le unitsPerOne_pos).1 h
  have hlt := Nat.lt_of_le_of_lt hunits a.units_lt
  rw [unitsPerOne_eq] at hlt ⊢
  have hshift : 53 + shiftBelowOne ≤ a.shift := by
    by_contra hsmall
    have hpow : (2 : Nat) ^ 53 * 2 ^ a.shift ≤ 2 ^ 52 * 2 ^ (53 + shiftBelowOne) := by
      rw [← Nat.pow_add, ← Nat.pow_add]
      exact Nat.pow_le_pow_right (by decide) (by omega)
    omega
  exact Nat.mod_eq_zero_of_dvd (Nat.dvd_mul_left_of_dvd (Nat.pow_dvd_pow 2 hshift) a.mantissa)

/-- Halves of units are added before the integral part is taken. -/
private theorem nearestWhole_value (a : Magnitude) :
    nearestWhole a.value = (2 * a.units + unitsPerOne) / (2 * unitsPerOne) := by
  have hhalf : a.value + 1 / 2 = ((2 * a.units + unitsPerOne : ℕ) : ℚ) / (2 * unitsPerOne : ℕ) := by
    have hpos := cast_unitsPerOne_pos
    rw [value]
    push_cast
    field_simp
  rw [nearestWhole, hhalf, Nat.floor_div_eq_div]

end Magnitude

/-- A magnitude is rounded to the nearest whole number, which is a magnitude. -/
private theorem exists_roundHalfAway (a : Magnitude) :
    ∃ r : Magnitude, r.value = nearestWhole a.value ∧ ∀ s, (Double.finite s a).roundHalfAway = .finite s r := by
  rcases Nat.lt_or_ge a.whole (2 ^ 52) with hsmall | hlarge
  · have hunits : a.units < 2 ^ 52 * unitsPerOne := (Nat.div_lt_iff_lt_mul Magnitude.unitsPerOne_pos).1 hsmall
    have hlt : (2 * a.units + unitsPerOne) / (2 * unitsPerOne) < 2 ^ 53 := by
      refine Nat.div_lt_of_lt_mul ?_
      omega
    have hoverflow : 2 ^ 53 * unitsPerOne < Magnitude.overflowUnits := by decide +kernel
    obtain ⟨r, hr⟩ := Magnitude.exists_units_eq_mul hlt
      (Nat.lt_of_le_of_lt (Nat.mul_le_mul_right _ hlt.le) hoverflow)
    refine ⟨r, ?_, fun s => ?_⟩
    · rw [a.nearestWhole_value, Magnitude.value_eq_natCast hr]
    · have hnearest := r.nearest?_units_mul Nat.one_pos
      rw [Nat.mul_one, hr] at hnearest
      rw [Double.roundHalfAway, if_neg (Nat.not_le.2 hsmall), Double.ofRatio_eq hnearest]
  · refine ⟨a, ?_, fun s => if_pos hlarge⟩
    have hwhole : a.units = a.whole * unitsPerOne :=
      (Nat.div_mul_cancel (Nat.dvd_of_mod_eq_zero (Magnitude.isWhole_of_large hlarge))).symm
    rw [Magnitude.value_eq_natCast hwhole, nearestWhole_natCast]

/-! ### Signed numbers -/

/-- The number that a finite double is. -/
def signedValue (s : Bool) (a : Magnitude) : ℚ :=
  if s then -a.value else a.value

private theorem abs_signedValue (s : Bool) (a : Magnitude) : |signedValue s a| = a.value := by
  cases s <;> simp [signedValue, a.value_nonneg]

private theorem abs_signedValue_sub (s : Bool) (r a : Magnitude) :
    |signedValue s r - signedValue s a| = |r.value - a.value| := by
  cases s
  · rfl
  · exact (congrArg _ (by simp only [signedValue, if_true]; ring)).trans (abs_neg (r.value - a.value))

/-- Finite doubles are compared as numbers. -/
private theorem le_finite_iff (s t : Bool) (a b : Magnitude) :
    (Double.finite s a).le (.finite t b) = true ↔ signedValue s a ≤ signedValue t b := by
  have hscale : ∀ s a, signedValue s a = (Double.signedUnits s a : ℚ) / unitsPerOne := by
    intro s a
    cases s with
    | false => exact congrArg (· / (unitsPerOne : ℚ)) (Int.cast_natCast a.units).symm
    | true =>
      show -a.value = ((-(a.units : ℤ) : ℤ) : ℚ) / unitsPerOne
      rw [Int.cast_neg, Int.cast_natCast, neg_div, Magnitude.value]
  rw [hscale, hscale, div_le_div_iff_of_pos_right Magnitude.cast_unitsPerOne_pos, Int.cast_le]
  simp [Double.le, Double.key]

private theorem infinite_le_finite_iff (s t : Bool) (b : Magnitude) :
    (Double.infinite s).le (.finite t b) = true ↔ s = true := by
  have hlt := b.units_lt_infinite
  simp only [Double.le, Double.key]
  generalize 2 ^ 2098 = big at hlt
  cases s <;> cases t <;> simp [Double.signedUnits] <;> omega

private theorem finite_le_infinite_iff (s t : Bool) (a : Magnitude) :
    (Double.finite s a).le (.infinite t) = true ↔ t = false := by
  have hlt := a.units_lt_infinite
  simp only [Double.le, Double.key]
  generalize 2 ^ 2098 = big at hlt
  cases s <;> cases t <;> simp [Double.signedUnits] <;> omega

/-- The number with sign `s` and magnitude `a` is rounded to the magnitude `r` with the same sign: to a nearest whole
number, and away from zero if there are two. -/
structure RoundsHalfAway (s : Bool) (a r : Magnitude) : Prop where
  whole : ∃ z : ℤ, signedValue s r = z
  near : |signedValue s r - signedValue s a| ≤ 1 / 2
  tie : |signedValue s r - signedValue s a| = 1 / 2 → |signedValue s a| < |signedValue s r|
  of_whole : (∃ z : ℤ, signedValue s a = z) → r = a

private theorem roundsHalfAway_of_value {a r : Magnitude} (h : r.value = nearestWhole a.value) (s : Bool) :
    RoundsHalfAway s a r := by
  refine ⟨?_, ?_, fun htie => ?_, ?_⟩
  · refine ⟨if s then -(nearestWhole a.value : ℤ) else nearestWhole a.value, ?_⟩
    cases s <;> simp [signedValue, h]
  · rw [abs_signedValue_sub, h]
    exact abs_nearestWhole_sub_le a.value_nonneg
  · rw [abs_signedValue_sub, h] at htie
    rw [abs_signedValue, abs_signedValue, h]
    exact lt_nearestWhole_of_abs_eq a.value_nonneg htie
  · rintro ⟨z, hz⟩
    have hnat : a.value = z.natAbs := by
      rw [← abs_signedValue s, hz, Nat.cast_natAbs, Int.cast_abs]
    refine Magnitude.value_inj ?_
    rw [h, hnat, nearestWhole_natCast]

/-- Rounding whole numbers of both signs keeps the order. -/
private theorem signedValue_nearestWhole_le {s t : Bool} {a b r q : Magnitude} (hr : r.value = nearestWhole a.value)
    (hq : q.value = nearestWhole b.value) (h : signedValue s a ≤ signedValue t b) :
    signedValue s r ≤ signedValue t q := by
  have hmono : ∀ {a b r q : Magnitude}, r.value = nearestWhole a.value → q.value = nearestWhole b.value →
      a.value ≤ b.value → r.value ≤ q.value := by
    intro a b r q hr hq hle
    rw [hr, hq, Nat.cast_le]
    exact nearestWhole_mono hle
  match s, t with
  | false, false => exact hmono hr hq h
  | true, true => exact neg_le_neg (hmono hq hr (neg_le_neg_iff.1 h))
  | true, false => exact (neg_nonpos.2 r.value_nonneg).trans q.value_nonneg
  | false, true =>
    -- both numbers are zeros
    have hzero : ∀ {a r : Magnitude}, r.value = nearestWhole a.value → a.value ≤ 0 → r.value ≤ 0 := by
      intro a r hr hle
      rw [hr, le_antisymm hle a.value_nonneg]
      exact_mod_cast (nearestWhole_natCast 0).le
    have ha : a.value ≤ -b.value := h
    have hrzero := hzero hr (by linarith [b.value_nonneg])
    have hqzero := hzero hq (by linarith [a.value_nonneg])
    exact hrzero.trans (neg_nonneg.2 hqzero)

private theorem roundHalfAway_neg (x : Double) : x.neg.roundHalfAway = x.roundHalfAway.neg := by
  cases x with
  | nan => rfl
  | infinite s => rfl
  | finite s a =>
    obtain ⟨r, -, h⟩ := exists_roundHalfAway a
    rw [Double.neg, h, h]
    rfl

private theorem roundHalfAway_le {x y : Double} (h : x.le y = true) : x.roundHalfAway.le y.roundHalfAway = true := by
  match x, y with
  | .nan, _ => exact h
  | .infinite _, .nan => exact h
  | .finite _ _, .nan => cases h
  | .infinite _, .infinite _ => exact h
  | .infinite s, .finite t b =>
    obtain ⟨q, -, hq⟩ := exists_roundHalfAway b
    rw [hq]
    exact (infinite_le_finite_iff s t q).2 ((infinite_le_finite_iff s t b).1 h)
  | .finite s a, .infinite t =>
    obtain ⟨r, -, hr⟩ := exists_roundHalfAway a
    rw [hr]
    exact (finite_le_infinite_iff s t r).2 ((finite_le_infinite_iff s t a).1 h)
  | .finite s a, .finite t b =>
    obtain ⟨r, hr, hra⟩ := exists_roundHalfAway a
    obtain ⟨q, hq, hqb⟩ := exists_roundHalfAway b
    rw [hra, hqb, le_finite_iff]
    exact signedValue_nearestWhole_le hr hq ((le_finite_iff s t a b).1 h)

/-- Rounding halves away from zero through decimals never fails.  A finite number is rounded exactly and keeps its sign;
the opposite number is rounded to the opposite, and the order is kept. -/
theorem roundHalfAway_exact :
    (∀ x, RawKernel.roundHalfAway x = .ok x.roundHalfAway) ∧
    (∀ s a, ∃ r, (Double.finite s a).roundHalfAway = .finite s r ∧ RoundsHalfAway s a r) ∧
    (∀ x : Double, x.neg.roundHalfAway = x.roundHalfAway.neg) ∧
    ∀ x y : Double, x.le y = true → x.roundHalfAway.le y.roundHalfAway = true := by
  refine ⟨RawKernel.roundHalfAway_eq, fun s a => ?_, roundHalfAway_neg, fun x y => roundHalfAway_le⟩
  obtain ⟨r, hr, h⟩ := exists_roundHalfAway a
  exact ⟨r, h s, roundsHalfAway_of_value hr s⟩

/-- The largest double below one half is rounded to zero, which is not above what three halves are rounded to. -/
theorem roundHalfAway_exact_below_half :
    (Double.ofBits 0x3FDFFFFFFFFFFFFF).le (.ofRatio false 3 2) = true ∧
      (Double.ofBits 0x3FDFFFFFFFFFFFFF).roundHalfAway = .zero false ∧
      (Double.zero false).le (Double.ofRatio false 3 2).roundHalfAway = true := by
  have hle : (Double.ofBits 0x3FDFFFFFFFFFFFFF).le (.ofRatio false 3 2) = true := by decide +kernel
  have hzero : (Double.ofBits 0x3FDFFFFFFFFFFFFF).roundHalfAway = .zero false := by decide +kernel
  have h := roundHalfAway_exact.2.2.2 _ _ hle
  rw [hzero] at h
  exact ⟨hle, hzero, h⟩

end DeskCalc
