import DeskCalc.Elementary.Platform
import DeskCalc.Proofs.AnnexF
import DeskCalc.Proofs.Quotient

/-!
# Operators of the standards

Division and power are the operations that the standards for floating-point numbers and for C describe, and neither of
them traps (`operators_ieee`).  Whether an exponent is odd is found out by the remainder of a division by two, which for a
negative number is what is left and two more (`modTwo`).

As a power function with all that is asked for there is one that is exact for whole exponents (`exactPow`).
-/

namespace DeskCalc

open Kernel (one)
open Magnitude (unitsPerOne)

/-! ### Odd roots and odd exponents -/

/-- Odd roots of negative numbers are the opposites of those of positive ones, whatever the power function is. -/
private theorem nroot_neg (fn : Elementary) {x n : Double} (hx : (Double.zero false).lt x = true)
    (hn : n.isOddInteger = true) : Kernel.nroot fn x.neg n = (Kernel.nroot fn x n).neg := by
  have hneg : x.neg.lt (.zero false) = true := by rwa [← zero_lt_eq]
  have hpos : x.lt (.zero false) = false := by
    rw [← Bool.not_eq_true, lt_zero_iff]
    rintro ⟨-, hsign⟩
    have hopposite := (lt_zero_iff.1 hneg).2
    cases x with
    | nan => cases hsign
    | _ => simp_all [Double.isNegative, Double.neg]
  rw [Kernel.nroot, Kernel.nroot, hneg, hpos, hn, neg_neg_eq]
  rfl

/-- The remainder of a division by two, with the sign of the divisor: two is added to what is left of a negative
number. -/
def modTwo : Double → Double
  | .finite s a =>
    let rest := Double.ofUnits s (a.units % (2 * unitsPerOne)) 1
    if rest.isZero then .zero false else if s then rest.add (.ofNat 2) else rest
  | _ => .nan

/-- The exponents that leave one are the odd integers. -/
private theorem modTwo_numEq_one (y : Double) : (y.isWhole && (modTwo y).numEq one) = y.isOddInteger := by
  cases y with
  | finite s a =>
    show (a.isWhole && (modTwo (.finite s a)).numEq one) = (a.isWhole && a.whole % 2 == 1)
    cases hwhole : a.isWhole with
    | false => rfl
    | true =>
      have hunits : a.units = a.whole * unitsPerOne :=
        (Nat.div_mul_cancel (Nat.dvd_of_mod_eq_zero (beq_iff_eq.1 hwhole))).symm
      have hrest : a.units % (2 * unitsPerOne) = a.whole % 2 * unitsPerOne := by
        rw [hunits, Nat.mul_mod_mul_right]
      rw [modTwo, hrest]
      rcases Nat.mod_two_eq_zero_or_one a.whole with h | h
      all_goals
        rw [h]
        cases s <;> decide +kernel
  | _ => rfl

/-- Division and power never trap.  Division gives the quotient.  The power kernel gives the power, for every power function
with the special values of Annex F and whatever it signals in place of its values.  Powers with odd exponents are odd and
those with even ones are even, and odd roots are odd. -/
theorem operators_ieee :
    (∀ x y, RawKernel.divide x y = .ok (Kernel.divide x y)) ∧
    (∀ x y z, Kernel.divide x y = z ↔ IsQuotient x y z) ∧
    (∀ y : Double, (y.isWhole && (modTwo y).numEq one) = y.isOddInteger) ∧
    (∀ fn : Elementary, AnnexF fn.pow →
      (∀ x y out, PowOutcome fn.pow x y out →
        RawKernel.caught (RawKernel.powerAnswer x y) (RawKernel.signalled out) = .ok (fn.pow x y)) ∧
      (∀ x y, RawKernel.power fn x y = .ok (fn.pow x y) ∧ Kernel.power fn x y = fn.pow x y) ∧
      (∀ x y : Double, y.isOddInteger = true → Kernel.power fn x.neg y = (Kernel.power fn x y).neg) ∧
      ∀ x y : Double, y.isWhole = true → y.isOddInteger = false → Kernel.power fn x.neg y = Kernel.power fn x y) ∧
    ∀ (fn : Elementary) (x n : Double), (Double.zero false).lt x = true → n.isOddInteger = true →
      Kernel.nroot fn x.neg n = (Kernel.nroot fn x n).neg := by
  refine ⟨RawKernel.divide_eq, fun x y z => divide_eq_iff, modTwo_numEq_one, fun fn h => ?_,
    fun fn x n hx hn => nroot_neg fn hx hn⟩
  have hpower := power_eq_pow h
  refine ⟨fun x y out hout => h.caught_eq hout, fun x y => ⟨?_, hpower x y⟩, fun x y hy => ?_, fun x y hy heven => ?_⟩
  · rw [RawKernel.power_eq, hpower]
  · rw [hpower, hpower]
    exact h.pow_neg_of_isOddInteger hy x
  · rw [hpower, hpower]
    exact h.pow_neg_of_isWhole hy heven x

/-- The rounded power of a finite number with the integral part of the exponent. -/
def wholePow : Double → Double → Double
  | .finite s a, .finite t b =>
    let negative := s && (Double.finite t b).isOddInteger
    if t then .ofRatio negative (unitsPerOne ^ b.whole) (a.units ^ b.whole)
    else .ofRatio negative (a.units ^ b.whole) (unitsPerOne ^ b.whole)
  | _, _ => one

/-- A power function that is exact for whole exponents. -/
def exactPow (x y : Double) : Double :=
  (specialPow x y).getD (wholePow x y)

private theorem isNaN_ofUnits (s : Bool) (num den : Nat) : (Double.ofUnits s num den).isNaN = false := by
  unfold Double.ofUnits
  split <;> rfl

private theorem isNegative_ofUnits (s : Bool) (num den : Nat) : (Double.ofUnits s num den).isNegative = s := by
  unfold Double.ofUnits
  split <;> rfl

private theorem abs_ofUnits (s : Bool) (num den : Nat) : (Double.ofUnits s num den).abs = .ofUnits false num den := by
  unfold Double.ofUnits
  split <;> rfl

/-- Only powers of finite numbers with finite exponents have no special value. -/
private theorem exists_of_specialPow_eq_none {x y : Double} (h : specialPow x y = none) :
    ∃ s a t b, x = .finite s a ∧ y = .finite t b := by
  by_cases hspecial : y.isZero = true ∨ x = one
  · rw [specialPow, if_pos hspecial] at h
    cases h
  · rw [specialPow, if_neg hspecial] at h
    cases x with
    | nan => cases h
    | infinite s => cases y <;> cases h
    | finite s a =>
      cases y with
      | nan => cases h
      | infinite t =>
        dsimp only at h
        split at h <;> cases h
      | finite t b => exact ⟨s, a, t, b, rfl, rfl⟩

private theorem wholePow_eq (s t : Bool) (a b : Magnitude) : wholePow (.finite s a) (.finite t b) =
    if t then .ofRatio (s && (Double.finite t b).isOddInteger) (unitsPerOne ^ b.whole) (a.units ^ b.whole)
    else .ofRatio (s && (Double.finite t b).isOddInteger) (a.units ^ b.whole) (unitsPerOne ^ b.whole) :=
  rfl

private theorem wholePow_one (a : Magnitude) (h : a.units = unitsPerOne) (t : Bool) (b : Magnitude) :
    wholePow (.finite false a) (.finite t b) = .finite false a := by
  have hpos : 0 < a.units ^ b.whole := Nat.pow_pos (h ▸ Magnitude.unitsPerOne_pos)
  have hratio : Double.ofRatio false (a.units ^ b.whole) (a.units ^ b.whole) = .finite false a := by
    refine Double.ofRatio_eq ?_ false
    rw [← h, Nat.mul_comm]
    exact a.nearest?_units_mul hpos
  rw [wholePow_eq, ← h, ite_self, Bool.false_and, hratio]

/-- The sign of the base is a matter of the sign of the power only. -/
private theorem exists_wholePow (a : Magnitude) (t : Bool) (b : Magnitude) :
    ∃ num den, ∀ s, wholePow (.finite s a) (.finite t b) = .ofUnits (s && (Double.finite t b).isOddInteger) num den := by
  cases t with
  | false =>
    refine ⟨a.units ^ b.whole * unitsPerOne, unitsPerOne ^ b.whole, fun s => ?_⟩
    rw [wholePow_eq, if_neg Bool.false_ne_true, Double.ofRatio]
  | true =>
    refine ⟨unitsPerOne ^ b.whole * unitsPerOne, a.units ^ b.whole, fun s => ?_⟩
    rw [wholePow_eq, if_pos rfl, Double.ofRatio]

/-- Whole powers of opposite numbers have the same size. -/
private theorem abs_exactPow_finite (s t : Bool) (a b : Magnitude) (ha : a.mantissa ≠ 0) (hb : b.isWhole = true)
    (hne : (Double.finite t b).isZero = false) :
    (exactPow (.finite s a) (.finite t b)).abs = (wholePow (.finite false a) (.finite t b)).abs := by
  by_cases hone : Double.finite s a = one
  · obtain ⟨w, hw⟩ := Magnitude.exists_units_base (b := 1) (by decide)
    have heq : Double.finite s a = .finite false w := hone.trans (Double.ofNat_eq hw)
    obtain ⟨rfl, rfl⟩ := Double.finite.inj heq
    rw [Nat.one_mul] at hw
    rw [exactPow, specialPow, if_pos (.inr hone), Option.getD_some, wholePow_one a hw, ← hone]
  · have hspecial : ¬((Double.finite t b).isZero = true ∨ Double.finite s a = one) := by simp [hne, hone]
    obtain ⟨num, den, hpow⟩ := exists_wholePow a t b
    rw [exactPow, specialPow, if_neg hspecial]
    dsimp only
    rw [if_neg ha, if_neg (by simp [hb]), Option.getD_none, hpow, hpow, abs_ofUnits, abs_ofUnits]

private theorem abs_exactPow_neg {x y : Double} (hy : y.isWhole = true) :
    (exactPow x.neg y).abs = (exactPow x y).abs := by
  cases hzero : y.isZero with
  | true =>
    have hone : ∀ x, exactPow x y = one := by
      intro x
      rw [exactPow, specialPow, if_pos (.inl hzero), Option.getD_some]
    rw [hone, hone]
  | false =>
    have hspecial : ∀ x : Double, x ≠ one → ¬(y.isZero = true ∨ x = one) := by
      intro x hx
      simp [hzero, hx]
    obtain ⟨t, b, rfl⟩ : ∃ t b, y = .finite t b := by
      cases y with
      | finite t b => exact ⟨t, b, rfl⟩
      | _ => cases hy
    cases x with
    | nan => rfl
    | infinite s =>
      have hpow : ∀ s, (exactPow (.infinite s) (.finite t b)).abs = if t then .zero false else .infinite false := by
        intro s
        have hne : Double.infinite s ≠ one := fun heq => absurd isFinite_one (by rw [← heq]; exact Bool.noConfusion)
        rw [exactPow, specialPow, if_neg (hspecial _ hne), Option.getD_some]
        cases t <;> rfl
      exact (hpow _).trans (hpow s).symm
    | finite s a =>
      by_cases ha : a.mantissa = 0
      · have hpow : ∀ s, (exactPow (.finite s a) (.finite t b)).abs = if t then .infinite false else .zero false := by
          intro s
          have hne : Double.finite s a ≠ one := fun heq =>
            absurd isZero_one (by rw [← heq, Double.isZero, ha]; exact Bool.noConfusion)
          rw [exactPow, specialPow, if_neg (hspecial _ hne)]
          dsimp only
          rw [if_pos ha, Option.getD_some]
          cases t <;> rfl
        exact (hpow _).trans (hpow s).symm
      · rw [Double.neg, abs_exactPow_finite _ t a b ha hy hzero, abs_exactPow_finite s t a b ha hy hzero]

private theorem annexF_exactPow : AnnexF exactPow := by
  refine ⟨fun {x y z} h => ?_, fun {x y} h => ?_, fun {x y} h => ?_, fun hy => abs_exactPow_neg hy⟩
  · rw [exactPow, h, Option.getD_some]
  all_goals
    obtain ⟨s, a, t, b, rfl, rfl⟩ := exists_of_specialPow_eq_none h
    obtain ⟨num, den, hpow⟩ := exists_wholePow a t b
    rw [exactPow, h, Option.getD_none, hpow]
  · exact isNaN_ofUnits _ _ _
  · exact isNegative_ofUnits _ _ _

/-- The platform's functions with the exact power function. -/
def exactPlatform : Elementary :=
  { Elementary.platform with pow := exactPow }

/-- The 401st power of ten is too large, and that of minus ten as well. -/
theorem operators_ieee_overflow :
    PowOutcome exactPlatform.pow (.ofNat 10) (.ofNat 401) (.error .range) ∧
      RawKernel.caught (RawKernel.powerAnswer (.ofNat 10) (.ofNat 401)) (RawKernel.signalled (.error .range)) =
        .ok (.infinite false) ∧
      Kernel.power exactPlatform (Double.ofNat 10).neg (.ofNat 401) = .infinite true ∧
      Kernel.power exactPlatform (Double.ofNat 10).neg (.ofNat 400) = Kernel.power exactPlatform (.ofNat 10) (.ofNat 400) ∧
      Kernel.nroot exactPlatform (Double.ofNat 8).neg (.ofNat 3) = (Kernel.nroot exactPlatform (.ofNat 8) (.ofNat 3)).neg := by
  have hpow : exactPlatform.pow (.ofNat 10) (.ofNat 401) = .infinite false := by decide +kernel
  have hrange : PowOutcome exactPlatform.pow (.ofNat 10) (.ofNat 401) (.error .range) :=
    .overflow (by decide +kernel) (by decide +kernel) (by rw [hpow]; exact ⟨rfl, rfl⟩)
  obtain ⟨hcaught, hpower, hodd, heven⟩ := operators_ieee.2.2.2.1 exactPlatform annexF_exactPow
  refine ⟨hrange, ?_, ?_, heven _ _ (by decide +kernel) (by decide +kernel),
    operators_ieee.2.2.2.2 exactPlatform (.ofNat 8) (.ofNat 3) (by decide +kernel) (by decide +kernel)⟩
  · rw [hcaught _ _ _ hrange, hpow]
  · rw [hodd (.ofNat 10) (.ofNat 401) (by decide +kernel), (hpower (.ofNat 10) (.ofNat 401)).2, hpow]
    rfl

end DeskCalc
