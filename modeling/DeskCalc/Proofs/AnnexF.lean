import DeskCalc.Proofs.RawKernel

/-!
# Powers

The library's power function signals a fault instead of some of its values (`PowOutcome`).  The kernel answers the signals
by sign and class of the operands.  That gives the values back, if the function has the special values that the standard
for C prescribes in Annex F (`specialPow`), and if every other power has the sign that it has as a number (`AnnexF`): so
the power kernel is the power function (`power_eq_pow`).

Under the same conditions powers with odd exponents are odd functions and those with even ones are even, at zero and at
the infinities as well (`AnnexF.pow_neg_of_isOddInteger`, `AnnexF.pow_neg_of_isWhole`).
-/

namespace DeskCalc

open Kernel (one)
open Magnitude (unitsPerOne)

/-! ### Special values of powers -/

/-- The powers with a value of their own in Annex F: those with an exponent zero or base one, those of NaN and of the
infinities, infinite powers, powers of zero, and fractional powers of a negative base. -/
def specialPow (x y : Double) : Option Double :=
  if y.isZero = true ∨ x = one then some one
  else
    let odd := x.isNegative && y.isOddInteger
    match x, y with
    | .nan, _ => some .nan
    | _, .nan => some .nan
    | .infinite _, _ => some (if y.isNegative then .zero odd else .infinite odd)
    | .finite _ a, .infinite t =>
      if a.units = unitsPerOne then some one
      else some (if t = decide (a.units < unitsPerOne) then .infinite false else .zero false)
    | .finite s a, .finite t b =>
      if a.mantissa = 0 then some (if t then .infinite odd else .zero odd)
      else if s = true ∧ b.isWhole = false then some .nan
      else none

/-- A power function as Annex F has it.  All powers without a special value are numbers, with the sign that they have
exactly, even if they are too large or too small; and whole powers of opposite numbers have the same size. -/
structure AnnexF (pow : Double → Double → Double) : Prop where
  special : ∀ {x y z : Double}, specialPow x y = some z → pow x y = z
  isNaN_eq : ∀ {x y : Double}, specialPow x y = none → (pow x y).isNaN = false
  isNegative_eq : ∀ {x y : Double}, specialPow x y = none → (pow x y).isNegative = (x.isNegative && y.isOddInteger)
  abs_neg : ∀ {x y : Double}, y.isWhole = true → (pow x.neg y).abs = (pow x y).abs

/-- What the library's power function may do: signal a domain fault at a pole and where the power is not defined, signal
a range fault where it is too large, and answer with the power elsewhere.  At the pole with an infinite exponent it may do
either. -/
inductive PowOutcome (pow : Double → Double → Double) (x y : Double) : Except MathFault Double → Prop
  | pole (hx : x.isZero = true) (hy : y.lt (.zero false) = true) : PowOutcome pow x y (.error .domain)
  | undefined (hx : x.lt (.zero false) = true) (finite : x.isFinite = true ∧ y.isFinite = true)
      (hy : y.isWhole = false) : PowOutcome pow x y (.error .domain)
  | overflow (hx : x.isZero = false) (finite : x.isFinite = true ∧ y.isFinite = true)
      (infinite : (pow x y).isFinite = false ∧ (pow x y).isNaN = false) : PowOutcome pow x y (.error .range)
  | answer (pole : x.isZero = true → y.lt (.zero false) = true → y.isFinite = false)
      (defined : x.lt (.zero false) = true → x.isFinite = true → y.isFinite = true → y.isWhole = true)
      (bounded : x.isZero = false → x.isFinite = true → y.isFinite = true →
        (pow x y).isFinite = true ∨ (pow x y).isNaN = true) : PowOutcome pow x y (.ok (pow x y))

private theorem isNegative_one : one.isNegative = false := by
  decide +kernel

private theorem isNaN_one : one.isNaN = false := by
  decide +kernel

theorem isFinite_one : one.isFinite = true := by
  decide +kernel

theorem isZero_one : one.isZero = false := by
  decide +kernel

section Classes

variable {x y : Double}

private theorem isFinite_of_isZero (h : x.isZero = true) : x.isFinite = true := by
  cases x with
  | finite s a => rfl
  | _ => cases h

private theorem isOddInteger_of_isZero (h : y.isZero = true) : y.isOddInteger = false := by
  cases y with
  | finite s a =>
    have hunits : a.units = 0 := a.units_eq_zero_iff.2 (beq_iff_eq.1 h)
    simp [Double.isOddInteger, Magnitude.whole, hunits]
  | _ => cases h

private theorem isWhole_of_isZero (h : y.isZero = true) : y.isWhole = true := by
  cases y with
  | finite s a =>
    have hunits : a.units = 0 := a.units_eq_zero_iff.2 (beq_iff_eq.1 h)
    simp [Double.isWhole, Magnitude.isWhole, hunits]
  | _ => cases h

private theorem isWhole_of_isOddInteger (h : y.isOddInteger = true) : y.isWhole = true := by
  cases y with
  | finite s a => exact (Bool.and_eq_true_iff.1 h).1
  | _ => cases h

private theorem isFinite_of_isWhole (h : y.isWhole = true) : y.isFinite = true := by
  cases y with
  | finite s a => rfl
  | _ => cases h

/-- Below zero are the numbers that are negative and no zero. -/
theorem lt_zero_iff : x.lt (.zero false) = true ↔ x.isZero = false ∧ x.isNegative = true := by
  cases h : x.isZero with
  | false => rw [RawKernel.lt_zero_eq h, eq_self, true_and]
  | true => simp [RawKernel.lt_zero_of_isZero h]

/-- Above zero are the opposites of the numbers below it. -/
theorem zero_lt_eq (x : Double) : (Double.zero false).lt x = x.neg.lt (.zero false) := by
  have hzero : (Double.zero false).key = some 0 := by decide +kernel
  cases x with
  | nan => rfl
  | infinite s => cases s <;> decide +kernel
  | finite s a =>
    rw [Double.lt, Double.lt, hzero]
    cases s <;> simp [Double.key, Double.neg, Double.signedUnits]

end Classes

section Table

variable {x y : Double}

private theorem specialPow_of_isZero_left (hx : x.isZero = true) (hy : y.lt (.zero false) = true) :
    specialPow x y = some (.infinite (x.isNegative && y.isOddInteger)) := by
  obtain ⟨hne, hneg⟩ := lt_zero_iff.1 hy
  have hone : x ≠ one := by
    intro heq
    rw [heq, isZero_one] at hx
    cases hx
  rw [specialPow, if_neg (by simp [hne, hone])]
  cases x with
  | finite s a =>
    have hmantissa : a.mantissa = 0 := beq_iff_eq.1 hx
    have hunits : a.units = 0 := a.units_eq_zero_iff.2 hmantissa
    cases y with
    | nan => cases hneg
    | infinite t =>
      have hpos := Magnitude.unitsPerOne_pos
      obtain rfl : t = true := hneg
      simp [hunits, hpos, hpos.ne, Double.isOddInteger]
    | finite t b =>
      obtain rfl : t = true := hneg
      simp [hmantissa]
  | _ => cases hx

private theorem specialPow_of_isWhole_eq_false (hx : x.lt (.zero false) = true)
    (finite : x.isFinite = true ∧ y.isFinite = true) (hy : y.isWhole = false) : specialPow x y = some .nan := by
  obtain ⟨hne, hneg⟩ := lt_zero_iff.1 hx
  have hone : x ≠ one := by
    intro heq
    rw [heq, isNegative_one] at hneg
    cases hneg
  have hyne : y.isZero = false := by
    cases hzero : y.isZero with
    | false => rfl
    | true =>
      rw [isWhole_of_isZero hzero] at hy
      cases hy
  rw [specialPow, if_neg (by simp [hyne, hone])]
  match x, y with
  | .finite s a, .finite t b =>
    have hmantissa : a.mantissa ≠ 0 := beq_eq_false_iff_ne.1 hne
    exact (if_neg hmantissa).trans (if_pos ⟨hneg, hy⟩)
  | .finite _ _, .nan => cases finite.2
  | .finite _ _, .infinite _ => cases finite.2
  | .nan, _ => cases finite.1
  | .infinite _, _ => cases finite.1

end Table

/-- The powers of finite numbers with finite exponents, as Annex F has them. -/
inductive FinitePower (x y : Double) : Double → Prop
  | one (h : y.isZero = true ∨ x = Kernel.one) : FinitePower x y Kernel.one
  | pole (hx : x.isZero = true) (hy : y.lt (.zero false) = true) :
      FinitePower x y (.infinite (x.isNegative && y.isOddInteger))
  | zero (hx : x.isZero = true) (hy : y.lt (.zero false) = false) :
      FinitePower x y (.zero (x.isNegative && y.isOddInteger))
  | undefined (hx : x.lt (.zero false) = true) (hy : y.isWhole = false) : FinitePower x y .nan
  | ordinary {z : Double} (hx : x.isZero = false) (hy : x.lt (.zero false) = true → y.isWhole = true)
      (hnan : z.isNaN = false) (hsign : z.isNegative = (x.isNegative && y.isOddInteger)) : FinitePower x y z

namespace AnnexF

variable {pow : Double → Double → Double} (h : AnnexF pow) {x y : Double}

include h

private theorem finitePower (hx : x.isFinite = true) (hy : y.isFinite = true) : FinitePower x y (pow x y) := by
  have special : ∀ {z : Double}, specialPow x y = some z → FinitePower x y z → FinitePower x y (pow x y) := by
    intro z hz hpower
    rwa [h.special hz]
  by_cases hone : y.isZero = true ∨ x = one
  · exact special (if_pos hone) (.one hone)
  · have hyne : y.isZero = false := by simpa using (not_or.1 hone).1
    match x, y with
    | .finite s a, .finite t b =>
      by_cases hzero : a.mantissa = 0
      · have hxzero : (Double.finite s a).isZero = true := beq_iff_eq.2 hzero
        cases hsign : (Double.finite t b).lt (.zero false) with
        | true => exact special (specialPow_of_isZero_left hxzero hsign) (.pole hxzero hsign)
        | false =>
          refine special ?_ (.zero hxzero hsign)
          rw [RawKernel.lt_zero_eq hyne] at hsign
          obtain rfl : t = false := hsign
          simp [specialPow, hone, hzero]
      · have hxne : (Double.finite s a).isZero = false := beq_eq_false_iff_ne.2 hzero
        by_cases hdefined : s = true ∧ b.isWhole = false
        · have hlt := lt_zero_iff.2 ⟨hxne, hdefined.1⟩
          exact special (specialPow_of_isWhole_eq_false hlt ⟨rfl, rfl⟩ hdefined.2) (.undefined hlt hdefined.2)
        · have hnone : specialPow (.finite s a) (.finite t b) = none := by
            rw [specialPow, if_neg hone]
            dsimp only
            rw [if_neg hzero, if_neg hdefined]
          refine .ordinary hxne (fun hlt => ?_) (h.isNaN_eq hnone) (h.isNegative_eq hnone)
          by_contra hwhole
          exact hdefined ⟨(lt_zero_iff.1 hlt).2, Bool.not_eq_true _ ▸ hwhole⟩

/-- The answers to the signals are the powers. -/
theorem caught_eq {out : Except MathFault Double} (hout : PowOutcome pow x y out) :
    RawKernel.caught (RawKernel.powerAnswer x y) (RawKernel.signalled out) = .ok (pow x y) := by
  rw [RawKernel.caught_signalled]
  refine congrArg Except.ok ?_
  cases hout with
  | pole hx hy =>
    rw [h.special (specialPow_of_isZero_left hx hy)]
    exact if_pos hx
  | undefined hx finite hy =>
    have hne := (lt_zero_iff.1 hx).1
    have hpow : pow x y = .nan := h.special (specialPow_of_isWhole_eq_false hx finite hy)
    rw [hpow]
    exact if_neg (by simp [hne])
  | overflow hx finite infinite =>
    have hpower := h.finitePower finite.1 finite.2
    show Double.infinite (x.isNegative && y.isOddInteger) = pow x y
    generalize pow x y = z at hpower infinite
    cases hpower with
    | one _ => simp [isFinite_one] at infinite
    | pole _ _ => rfl
    | zero _ _ => simp [Double.zero, Double.isFinite] at infinite
    | undefined _ _ => simp [Double.isNaN] at infinite
    | ordinary _ _ _ hsign =>
      cases z with
      | infinite s => rw [← hsign, Double.isNegative]
      | nan => simp [Double.isNaN] at infinite
      | finite s a => simp [Double.isFinite] at infinite
  | answer _ _ _ => rfl

end AnnexF

section Kernel

variable {fn : Elementary} {x y : Double}

/-- Nothing is signalled for a finite power, and for operands that are not finite. -/
private theorem checkedPow_eq_ok (h : x.isFinite = true → y.isFinite = true → (fn.pow x y).isFinite = true) :
    fn.checkedPow x y = .ok (fn.pow x y) := by
  rw [Elementary.checkedPow]
  cases hz : fn.pow x y with
  | finite s a => rfl
  | _ =>
    rw [hz] at h
    have hoperands : (x.isFinite && y.isFinite) = false := by
      rw [Bool.and_eq_false_iff, ← Bool.not_eq_true, ← Bool.not_eq_true, ← not_and_or]
      exact fun hfinite => Bool.noConfusion (h hfinite.1 hfinite.2)
    simp [hoperands]

/-- Everything else is signalled. -/
private theorem checkedPow_eq_error (hx : x.isFinite = true) (hy : y.isFinite = true)
    (h : (fn.pow x y).isFinite = false) :
    fn.checkedPow x y = .error (if (fn.pow x y).isNaN || x.isZero then .domain else .range) := by
  rw [Elementary.checkedPow]
  cases hz : fn.pow x y with
  | finite s a =>
    rw [hz] at h
    cases h
  | nan => simp [hx, hy, Double.isNaN]
  | infinite s =>
    simp only [hx, hy, Bool.and_true, if_true, Double.isNaN, Bool.false_or]
    split <;> rfl

/-- The kernel's power function behaves as the library's may. -/
private theorem powOutcome_checkedPow (h : AnnexF fn.pow) (x y : Double) :
    PowOutcome fn.pow x y (fn.checkedPow x y) := by
  by_cases hoperands : x.isFinite = true ∧ y.isFinite = true
  · have hpower := h.finitePower hoperands.1 hoperands.2
    have answer : (fn.pow x y).isFinite = true → (x.isZero = true → y.lt (.zero false) = false) →
        (x.lt (.zero false) = true → y.isWhole = true) → PowOutcome fn.pow x y (fn.checkedPow x y) := by
      intro hpow hpole hdefined
      rw [checkedPow_eq_ok fun _ _ => hpow]
      refine .answer (fun hx hy => ?_) (fun hx _ _ => hdefined hx) fun _ _ _ => .inl hpow
      rw [hpole hx] at hy
      cases hy
    generalize hz : fn.pow x y = z at hpower
    cases hpower with
    | one hone =>
      refine answer (hz ▸ isFinite_one) (fun hx => ?_) fun hx => ?_
      · rcases hone with hy | heq
        · exact RawKernel.lt_zero_of_isZero hy
        · rw [heq, isZero_one] at hx
          cases hx
      · rcases hone with hy | heq
        · exact isWhole_of_isZero hy
        · rw [lt_zero_iff, heq, isNegative_one] at hx
          cases hx.2
    | pole hx hy =>
      rw [checkedPow_eq_error hoperands.1 hoperands.2 (hz ▸ rfl), hx, Bool.or_true, if_pos rfl]
      exact .pole hx hy
    | zero hx hy =>
      exact answer (hz ▸ rfl) (fun _ => hy) fun hlt => absurd hlt (by simp [RawKernel.lt_zero_of_isZero hx])
    | undefined hx hy =>
      rw [checkedPow_eq_error hoperands.1 hoperands.2 (hz ▸ rfl), hz]
      exact .undefined hx hoperands hy
    | ordinary hx hy hnan _ =>
      cases hpow : z.isFinite with
      | true => exact answer (hz ▸ hpow) (fun hzero => by rw [hx] at hzero; cases hzero) hy
      | false =>
        rw [checkedPow_eq_error hoperands.1 hoperands.2 (hz ▸ hpow), hz, hx, hnan]
        exact .overflow hx hoperands ⟨hz ▸ hpow, hz ▸ hnan⟩
  · rw [checkedPow_eq_ok fun hx hy => absurd ⟨hx, hy⟩ hoperands]
    refine .answer (fun hx _ => ?_) (fun _ hx hy => absurd ⟨hx, hy⟩ hoperands) fun _ hx hy => absurd ⟨hx, hy⟩ hoperands
    exact Bool.not_eq_true _ ▸ fun hy => hoperands ⟨isFinite_of_isZero hx, hy⟩

theorem power_eq_pow (h : AnnexF fn.pow) (x y : Double) : Kernel.power fn x y = fn.pow x y :=
  Except.ok.inj ((RawKernel.power_eq x y).symm.trans (h.caught_eq (powOutcome_checkedPow h x y)))

end Kernel

/-! ### Opposite bases -/

private theorem withSign_abs (x : Double) : x.abs.withSign x.isNegative = x := by
  cases x <;> rfl

private theorem neg_eq_withSign (x : Double) : x.neg = x.abs.withSign !x.isNegative := by
  cases x <;> rfl

private theorem isNaN_neg (x : Double) : x.neg.isNaN = x.isNaN := by
  cases x <;> rfl

private theorem isNegative_neg {x : Double} (h : x.isNaN = false) : x.neg.isNegative = !x.isNegative := by
  cases x with
  | nan => cases h
  | _ => rfl

theorem neg_neg_eq (x : Double) : x.neg.neg = x := by
  cases x <;> simp [Double.neg]

namespace AnnexF

variable {pow : Double → Double → Double} (h : AnnexF pow) {x y : Double}

include h

/-- Whole powers have the sign that they have as numbers, those of zero and of the infinities as well. -/
private theorem isNegative_of_isWhole (hx : x.isNaN = false) (hy : y.isWhole = true) :
    (pow x y).isNegative = (x.isNegative && y.isOddInteger) := by
  have hfinite := isFinite_of_isWhole hy
  have hone : (y.isZero = true ∨ x = one) → one.isNegative = (x.isNegative && y.isOddInteger) := by
    rintro (hzero | heq)
    · rw [isNegative_one, isOddInteger_of_isZero hzero, Bool.and_false]
    · rw [heq, isNegative_one, Bool.false_and]
  cases x with
  | nan => cases hx
  | infinite s =>
    by_cases hspecial : y.isZero = true ∨ Double.infinite s = one
    · rw [h.special (if_pos hspecial)]
      exact hone hspecial
    · cases y with
      | finite t b =>
        rw [h.special (if_neg hspecial)]
        cases t <;> rfl
      | _ => cases hfinite
  | finite s a =>
    have hpower := h.finitePower (x := .finite s a) rfl hfinite
    generalize pow (.finite s a) y = z at hpower
    cases hpower with
    | one hspecial => exact hone hspecial
    | pole _ _ => rfl
    | zero _ _ => rfl
    | undefined _ hfraction =>
      rw [hy] at hfraction
      cases hfraction
    | ordinary _ _ _ hsign => exact hsign

/-- Powers with odd exponents are odd functions. -/
theorem pow_neg_of_isOddInteger (hy : y.isOddInteger = true) (x : Double) : pow x.neg y = (pow x y).neg := by
  have hwhole := isWhole_of_isOddInteger hy
  cases hx : x.isNaN with
  | true =>
    have hnan : pow .nan y = .nan := by
      have hspecial : ¬(y.isZero = true ∨ Double.nan = one) := by
        rintro (hzero | heq)
        · rw [isOddInteger_of_isZero hzero] at hy
          cases hy
        · have hone := isNaN_one
          rw [← heq] at hone
          cases hone
      exact h.special (if_neg hspecial)
    cases x with
    | nan => rw [Double.neg, hnan, Double.neg]
    | _ => cases hx
  | false =>
    have hneg : x.neg.isNaN = false := (isNaN_neg x).trans hx
    rw [← withSign_abs (pow x.neg y), neg_eq_withSign (pow x y), h.abs_neg hwhole, h.isNegative_of_isWhole hneg hwhole,
      h.isNegative_of_isWhole hx hwhole, isNegative_neg hx, hy, Bool.and_true, Bool.and_true]

/-- Powers with even exponents are even functions. -/
theorem pow_neg_of_isWhole (hy : y.isWhole = true) (heven : y.isOddInteger = false) (x : Double) :
    pow x.neg y = pow x y := by
  cases hx : x.isNaN with
  | true =>
    cases x with
    | nan => rfl
    | _ => cases hx
  | false =>
    have hneg : x.neg.isNaN = false := (isNaN_neg x).trans hx
    rw [← withSign_abs (pow x.neg y), ← withSign_abs (pow x y), h.abs_neg hy, h.isNegative_of_isWhole hneg hy,
      h.isNegative_of_isWhole hx hy, heven, Bool.and_false, Bool.and_false]

end AnnexF

end DeskCalc
