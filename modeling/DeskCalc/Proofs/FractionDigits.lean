import Mathlib.Algebra.Group.Defs
import DeskCalc.Numeral
import DeskCalc.Proofs.DecimalRounding

/-!
# The digits of a fraction

Digits are taken off a fraction by multiplying it with the base and splitting the product into its integral part, the
digit, and the rest, the next fraction (`DigitStep`).  The products are rounded, the splitting is exact
(`Double.sub_ofNat_whole`).

However the product is rounded, it stays below the base (`Magnitude.units_lt_of_nearest?_mul`): a fraction is at least
one step of the doubles below one away from it, so the exact product is farther from the base than half a step there.
So every digit is one of the base (`fractionDigits_lt`).
-/

namespace DeskCalc

namespace Magnitude

/-- The shift of the largest magnitudes below one. -/
@[irreducible]
def shiftBelowOne : Nat :=
  1021

theorem unitsPerOne_eq : unitsPerOne = 2 ^ (53 + shiftBelowOne) := by
  decide +kernel

/-! ### Integral part and rest -/

/-- A multiple of a power of two with a factor of at most 53 bits is a magnitude, if it is not too large. -/
theorem exists_units_eq {q e : Nat} (hq : q < 2 ^ 53) (h : q * 2 ^ e < overflowUnits) :
    ∃ a : Magnitude, a.units = q * 2 ^ e := by
  obtain ⟨a, ha⟩ := exists_nearest? Nat.one_pos (show q * 2 ^ e < overflowUnits * 1 by rwa [Nat.mul_one])
  refine ⟨a, ?_⟩
  have hunits := units_of_nearest? ha
  rw [Nat.div_one, Nat.one_mul] at hunits
  have hshift : shiftFor (q * 2 ^ e) ≤ e := by
    rw [shiftFor]
    by_cases hzero : q * 2 ^ e = 0
    · rw [hzero, Nat.log2_zero]
      omega
    · have hlt : q * 2 ^ e < 2 ^ (53 + e) := by
        rw [Nat.pow_add]
        exact Nat.mul_lt_mul_of_pos_right hq (Nat.two_pow_pos e)
      have hlog := (Nat.log2_lt hzero).2 hlt
      omega
  generalize shiftFor (q * 2 ^ e) = s at *
  have hmultiple : q * 2 ^ e = q * 2 ^ (e - s) * 2 ^ s := by
    rw [Nat.mul_assoc, ← Nat.pow_add, Nat.sub_add_cancel hshift]
  have hround : roundDiv (q * 2 ^ e) (2 ^ s) = q * 2 ^ (e - s) := by
    rw [hmultiple, roundDiv_mul_self (Nat.two_pow_pos s)]
  rw [hunits, hround, ← hmultiple]

theorem exists_units_eq_mul {n : Nat} (hn : n < 2 ^ 53) (h : n * unitsPerOne < overflowUnits) :
    ∃ a : Magnitude, a.units = n * unitsPerOne := by
  rw [unitsPerOne_eq] at h ⊢
  exact exists_units_eq hn h

/-- Bases are magnitudes. -/
theorem exists_units_base {b : Nat} (hb : b ≤ 36) : ∃ a : Magnitude, a.units = b * unitsPerOne := by
  have hlarge : 36 * unitsPerOne < overflowUnits := by decide +kernel
  exact exists_units_eq_mul (Nat.lt_of_le_of_lt hb (by decide))
    (Nat.lt_of_le_of_lt (Nat.mul_le_mul_right _ hb) hlarge)

/-- The integral part and the rest of a magnitude are magnitudes. -/
theorem exists_units_whole (a : Magnitude) :
    ∃ w r : Magnitude, w.units = a.whole * unitsPerOne ∧ r.units = a.units % unitsPerOne := by
  have hlt : a.units < overflowUnits := Nat.lt_of_le_of_lt (Nat.le_add_right _ unitsPerOne) a.units_add_lt
  rw [whole]
  rcases Nat.le_total (53 + shiftBelowOne) a.shift with hlarge | hsmall
  · have hdvd : unitsPerOne ∣ a.units := by
      rw [unitsPerOne_eq]
      exact Nat.dvd_mul_left_of_dvd (Nat.pow_dvd_pow 2 hlarge) a.mantissa
    refine ⟨a, zero, (Nat.div_mul_cancel hdvd).symm, ?_⟩
    rw [units_zero, Nat.mod_eq_zero_of_dvd hdvd]
  · -- the bits before the point are the upper ones of the mantissa
    have hsplit : unitsPerOne = 2 ^ (53 + shiftBelowOne - a.shift) * 2 ^ a.shift := by
      rw [← Nat.pow_add, Nat.sub_add_cancel hsmall, unitsPerOne_eq]
    have hquot : a.units / unitsPerOne = a.mantissa / 2 ^ (53 + shiftBelowOne - a.shift) := by
      rw [hsplit, units, Nat.mul_div_mul_right _ _ (Nat.two_pow_pos _)]
    have hrest : a.units % unitsPerOne = a.mantissa % 2 ^ (53 + shiftBelowOne - a.shift) * 2 ^ a.shift := by
      rw [hsplit, units, Nat.mul_mod_mul_right]
    have hmantissa : a.units / unitsPerOne < 2 ^ 53 := by
      rw [hquot]
      exact Nat.lt_of_le_of_lt (Nat.div_le_self _ _) a.mantissa_lt
    obtain ⟨w, hweq⟩ := exists_units_eq_mul hmantissa (Nat.lt_of_le_of_lt (Nat.div_mul_le_self _ _) hlt)
    obtain ⟨r, hreq⟩ := exists_units_eq (Nat.lt_of_le_of_lt (Nat.mod_le a.mantissa _) a.mantissa_lt)
      (Nat.lt_of_le_of_lt (hrest ▸ Nat.mod_le a.units unitsPerOne) hlt)
    exact ⟨w, r, hweq, hreq.trans hrest.symm⟩

/-! ### Products with the base -/

/-- The magnitudes below one are at least one step away from it. -/
private theorem units_add_le_of_lt {a : Magnitude} (h : a.units < unitsPerOne) :
    a.units + 2 ^ shiftBelowOne ≤ unitsPerOne := by
  rw [unitsPerOne_eq, Nat.pow_add] at h ⊢
  have hshift : a.shift ≤ shiftBelowOne := by
    by_contra hlarge
    have hnormal := a.normal.resolve_right (by omega)
    have hpow : (2 : Nat) ^ 53 * 2 ^ shiftBelowOne ≤ 2 ^ 52 * 2 ^ a.shift := by
      rw [← Nat.pow_add, ← Nat.pow_add]
      exact Nat.pow_le_pow_right (by decide) (by omega)
    have hle : 2 ^ 52 * 2 ^ a.shift ≤ a.units := Nat.mul_le_mul_right _ hnormal
    omega
  have hle : a.units ≤ (2 ^ 53 - 1) * 2 ^ shiftBelowOne :=
    Nat.mul_le_mul (Nat.le_sub_one_of_lt a.mantissa_lt) (Nat.pow_le_pow_right (by decide) hshift)
  rw [Nat.sub_mul] at hle
  generalize 2 ^ shiftBelowOne = step at *
  omega

/-- The rounded product of a fraction with a whole number is below that number. -/
theorem units_lt_of_nearest?_mul {a m : Magnitude} {b : Nat} (hb : 0 < b) (h : a.units < unitsPerOne)
    (hm : nearest? (a.units * b) 1 = some m) : m.units < b * unitsPerOne := by
  have hstep := units_add_le_of_lt h
  have hunits := units_of_nearest? hm
  rw [Nat.div_one, Nat.one_mul] at hunits
  have hround := (two_mul_dist_roundDiv (n := a.units * b) (Nat.two_pow_pos (shiftFor (a.units * b)))).1
  have hshift := le_div_shiftFor (a.units * b)
  rw [← hunits] at hround
  rw [Nat.le_div_iff_mul_le (Nat.two_pow_pos _)] at hshift
  by_contra hle
  -- then rounding goes up by so much that the step there is too large for the product
  have hproduct : a.units * b + b * 2 ^ shiftBelowOne ≤ b * unitsPerOne := by
    rw [Nat.mul_comm a.units, ← Nat.mul_add]
    exact Nat.mul_le_mul_left b hstep
  have hpos : 0 < b * 2 ^ shiftBelowOne := Nat.mul_pos hb (Nat.two_pow_pos _)
  have hbound : b * unitsPerOne = 2 ^ 53 * (b * 2 ^ shiftBelowOne) := by
    rw [unitsPerOne_eq, Nat.pow_add, Nat.mul_left_comm]
  rw [hbound] at hproduct hle
  rw [Nat.dist] at hround
  generalize b * 2 ^ shiftBelowOne = steps at *
  rcases hshift with hlarge | hzero
  · omega
  · rw [hzero] at hround
    omega

end Magnitude

namespace Double

open Magnitude (unitsPerOne)

variable {b : Nat}

theorem ofNat_eq {n : Nat} {w : Magnitude} (h : w.units = n * unitsPerOne) : ofNat n = finite false w := by
  refine ofRatio_eq ?_ false
  rw [← h, ← Nat.mul_one w.units]
  exact Magnitude.nearest?_units_mul Nat.one_pos w

/-- Taking the integral part off is exact. -/
theorem sub_ofNat_whole (a : Magnitude) :
    ∃ r : Magnitude, (finite false a).sub (ofNat a.whole) = finite false r ∧ r.units = a.units % unitsPerOne := by
  obtain ⟨w, r, hw, hr⟩ := a.exists_units_whole
  refine ⟨r, ?_, hr⟩
  have hsum : signedUnits false a + signedUnits true w = r.units := by
    have hsplit := Nat.div_add_mod' a.units unitsPerOne
    show (a.units : Int) + -(w.units : Int) = r.units
    rw [hw, hr, Magnitude.whole]
    omega
  rw [ofNat_eq hw]
  simp only [sub, neg, add, Bool.not_false, hsum]
  split
  · rename_i hzero
    rw [zero, Magnitude.eq_of_units_eq (a := r) (b := .zero)]
    · rfl
    · rw [Magnitude.units_zero]
      omega
  · rw [show decide ((r.units : Int) < 0) = false by simp, Int.natAbs_natCast]
    refine ofUnits_eq ?_ false
    rw [← Nat.mul_one r.units]
    exact Magnitude.nearest?_units_mul Nat.one_pos r

/-- The product of a fraction with a base is finite and rounded once, and its integral part is below the base. -/
private theorem mul_ofNat_whole (hb : 0 < b) (hle : b ≤ 36) {a : Magnitude} (h : a.units < unitsPerOne) :
    ∃ m : Magnitude, (finite false a).mul (ofNat b) = finite false m ∧
      Magnitude.nearest? (a.units * b) 1 = some m ∧ m.whole < b := by
  have hpos := Magnitude.unitsPerOne_pos
  obtain ⟨w, hw⟩ := Magnitude.exists_units_base hle
  have hlt : a.units * b < Magnitude.overflowUnits * 1 := by
    have hbase : w.units < Magnitude.overflowUnits :=
      Nat.lt_of_le_of_lt (Nat.le_add_right _ unitsPerOne) w.units_add_lt
    rw [Nat.mul_one, Nat.mul_comm]
    exact Nat.lt_of_le_of_lt (Nat.mul_le_mul_left b (Nat.le_of_lt h)) (hw ▸ hbase)
  obtain ⟨m, hm⟩ := Magnitude.exists_nearest? Nat.one_pos hlt
  refine ⟨m, ?_, hm, ?_⟩
  · rw [← Magnitude.nearest?_mul_right hpos, Nat.one_mul, Nat.mul_assoc, ← hw] at hm
    rw [ofNat_eq hw]
    exact ofUnits_eq hm (false ^^ false)
  · exact (Nat.div_lt_iff_lt_mul hpos).2 (Magnitude.units_lt_of_nearest?_mul hb h hm)

end Double

/-! ### The digits -/

section Digits

open Magnitude (unitsPerOne)

variable {b : Nat}

theorem fractionDigits_eq_nil_iff (b n : Nat) (f : Double) : fractionDigits b n f = [] ↔ n = 0 ∨ f.isZero = true := by
  cases n with
  | zero => exact iff_of_true rfl (.inl rfl)
  | succ n =>
    rw [fractionDigits]
    split <;> simp [*]

/-- One digit is taken off the fraction `a`: `m` is the rounded product with the base, its integral part is the digit,
and `r` is what the digit leaves of it, the next fraction. -/
structure DigitStep (b : Nat) (a m r : Magnitude) : Prop where
  product : (Double.finite false a).mul (Double.ofNat b) = .finite false m
  nearest : Magnitude.nearest? (a.units * b) 1 = some m
  digit_lt : m.whole < b
  rest : (Double.finite false m).sub (Double.ofNat m.whole) = .finite false r
  units_rest : r.units = m.units % unitsPerOne

theorem exists_digitStep (hb : 0 < b) (hle : b ≤ 36) {a : Magnitude} (h : a.units < unitsPerOne) :
    ∃ m r, DigitStep b a m r := by
  obtain ⟨m, hm, hnearest, hdigit⟩ := Double.mul_ofNat_whole hb hle h
  obtain ⟨r, hr, hunits⟩ := Double.sub_ofNat_whole m
  exact ⟨m, r, hm, hnearest, hdigit, hr, hunits⟩

namespace DigitStep

variable {a m r : Magnitude} (h : DigitStep b a m r)

include h

theorem units_rest_lt : r.units < unitsPerOne :=
  h.units_rest ▸ Nat.mod_lt _ Magnitude.unitsPerOne_pos

theorem fractionDigits_succ (n : Nat) : fractionDigits b (n + 1) (.finite false a) =
    if (Double.finite false a).isZero then [] else m.whole :: fractionDigits b n (.finite false r) := by
  rw [fractionDigits]
  simp only [h.product, h.rest]

end DigitStep

/-- The digits of a fraction are below the base. -/
theorem fractionDigits_lt (hb : 0 < b) (hle : b ≤ 36) (n : Nat) {a : Magnitude} (h : a.units < unitsPerOne) :
    ∀ d ∈ fractionDigits b n (.finite false a), d < b := by
  induction n generalizing a with
  | zero => exact nofun
  | succ n ih =>
    obtain ⟨m, r, hstep⟩ := exists_digitStep hb hle h
    rw [hstep.fractionDigits_succ]
    split
    · exact nofun
    · exact List.forall_mem_cons.2 ⟨hstep.digit_lt, ih hstep.units_rest_lt⟩

end Digits

end DeskCalc
