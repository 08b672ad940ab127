import DeskCalc.Proofs.DecimalText
import DeskCalc.Proofs.RadixExpansion

/-!
# Digits that vanish

When all digits of a numeral are zeros.  In a base other than ten that is so exactly if the number, multiplied by the base
as often as there are places and rounded each time, stays below one (`forall_fractionDigits_iff`).  If the base is a power of
two nothing is rounded, so it is a matter of the size of the number (`fades_two_pow_iff`).  In base ten the number is at most
half a unit of the last place (`Magnitude.forall_decimal_iff`); a number that has been rounded to that place is then zero
itself (`Magnitude.value_eq_zero_of_roundTo`).
-/

namespace DeskCalc

open Magnitude (unitsPerOne)

/-! ### Numbers moved by places -/

/-- The number times the base as often as there are places, each product rounded. -/
def scaledUp (b n : Nat) (x : Double) : Double :=
  (fun y => y.mul (.ofNat b))^[n] x

/-- Nothing of the number reaches the digits before the point when it is moved by `n` places. -/
def Fades (b n : Nat) (x : Double) : Prop :=
  (scaledUp b n x).lt Kernel.one = true

private theorem lt_one_iff (a : Magnitude) : (Double.finite false a).lt Kernel.one = true ↔ a.units < unitsPerOne := by
  have hone : Kernel.one.key = some (unitsPerOne : Int) := by decide +kernel
  rw [Double.lt, hone]
  show decide ((a.units : Int) < unitsPerOne) = true ↔ a.units < unitsPerOne
  rw [decide_eq_true_iff, Int.ofNat_lt]

/-- A positive number that is at least one. -/
inductive AtLeastOne : Double → Prop
  | finite {m : Magnitude} (h : unitsPerOne ≤ m.units) : AtLeastOne (.finite false m)
  | infinite : AtLeastOne (.infinite false)

section Base

variable {b : Nat} (two_le : 2 ≤ b) (le : b ≤ 36)

include two_le le

theorem AtLeastOne.mul {x : Double} (h : AtLeastOne x) : AtLeastOne (x.mul (.ofNat b)) := by
  obtain ⟨w, hw⟩ := Magnitude.exists_units_base le
  have hpos := Magnitude.unitsPerOne_pos
  rw [Double.ofNat_eq hw]
  cases h with
  | infinite =>
    have hne : w.mantissa ≠ 0 := by
      rw [Ne, ← w.units_eq_zero_iff, hw]
      exact (Nat.mul_pos (by omega) hpos).ne'
    have hmul : (Double.infinite false).mul (.finite false w) = .infinite false := if_neg hne
    rw [hmul]
    exact .infinite
  | @finite m h =>
    obtain ⟨one, hone⟩ := Magnitude.exists_units_base (b := 1) (by decide)
    have hle : one.units * unitsPerOne ≤ m.units * w.units := by
      rw [hone, Nat.one_mul, hw]
      exact Nat.mul_le_mul h (Nat.le_mul_of_pos_left _ (by omega))
    show AtLeastOne (.ofUnits (false ^^ false) (m.units * w.units) unitsPerOne)
    cases hc : Magnitude.nearest? (m.units * w.units) unitsPerOne with
    | none =>
      unfold Double.ofUnits
      rw [hc]
      exact .infinite
    | some c =>
      have hround := Magnitude.units_le_of_nearest? hpos hc hle
      rw [hone, Nat.one_mul] at hround
      rw [Double.ofUnits_eq hc]
      exact .finite hround

private theorem AtLeastOne.scaledUp {x : Double} (h : AtLeastOne x) (n : Nat) : AtLeastOne (scaledUp b n x) := by
  induction n generalizing x with
  | zero => exact h
  | succ n ih => exact ih (h.mul two_le le)

theorem AtLeastOne.not_fades {x : Double} (h : AtLeastOne x) (n : Nat) : ¬Fades b n x := by
  have hscaled := h.scaledUp two_le le n
  rw [Fades]
  generalize DeskCalc.scaledUp b n x = y at hscaled
  cases hscaled with
  | infinite => decide +kernel
  | finite h =>
    rw [lt_one_iff]
    omega

variable {a : Magnitude}

/-- All digits of a fraction are zeros exactly if the fraction, moved by that many places, stays below one. -/
theorem forall_fractionDigits_iff (h : a.units < unitsPerOne) (n : Nat) :
    (∀ d ∈ fractionDigits b n (.finite false a), d = 0) ↔ Fades b n (.finite false a) := by
  induction n generalizing a with
  | zero => exact iff_of_true nofun ((lt_one_iff a).2 h)
  | succ n ih =>
    obtain ⟨m, r, hstep⟩ := exists_digitStep (by omega) le h
    have hfades : Fades b (n + 1) (.finite false a) ↔ Fades b n (.finite false m) := by
      rw [Fades, scaledUp, Function.iterate_succ_apply, hstep.product]
      rfl
    rw [hfades, hstep.fractionDigits_succ]
    split
    · -- the product of a zero is a zero
      rename_i hzero
      have hm := hstep.nearest
      rw [a.units_eq_zero_iff.2 (beq_iff_eq.1 hzero), Nat.zero_mul, Magnitude.nearest?_of_two_mul_lt (by decide),
        Option.some.injEq] at hm
      have hnext := ih (a := m) (by rw [← hm, Magnitude.units_zero]; exact Magnitude.unitsPerOne_pos)
      rw [(fractionDigits_eq_nil_iff _ _ _).2 (.inr (by rw [← hm]; rfl))] at hnext
      exact hnext
    · rcases Nat.lt_or_ge m.units unitsPerOne with hbelow | habove
      · -- the digit is a zero and takes nothing off
        have hr : r = m := Magnitude.eq_of_units_eq (by rw [hstep.units_rest, Nat.mod_eq_of_lt hbelow])
        have hdigit : m.whole = 0 := Nat.div_eq_of_lt hbelow
        rw [← ih hbelow, hr, hdigit]
        simp
      · have hdigit : m.whole ≠ 0 := (Nat.div_pos habove Magnitude.unitsPerOne_pos).ne'
        exact iff_of_false (fun hzeros => hdigit (hzeros _ List.mem_cons_self))
          ((AtLeastOne.finite habove).not_fades two_le le n)

end Base

/-- In a base that is a power of two nothing is rounded. -/
theorem fades_two_pow_iff {k : Nat} (hpos : 0 < k) (hk : k ≤ 5) (a : Magnitude) (n : Nat) :
    Fades (2 ^ k) n (.finite false a) ↔ a.value * ((2 ^ k : ℕ) : ℚ) ^ n < 1 := by
  have two_le : 2 ≤ 2 ^ k := Nat.le_self_pow hpos.ne' 2
  have le : 2 ^ k ≤ 36 := Nat.le_trans (Nat.pow_le_pow_right (by decide) hk) (by decide)
  have hbase : (1 : ℚ) ≤ (2 ^ k : ℕ) := by exact_mod_cast Nat.one_le_two_pow
  induction n generalizing a with
  | zero =>
    rw [pow_zero, mul_one, a.value_lt_one_iff]
    exact lt_one_iff a
  | succ n ih =>
    rcases Nat.lt_or_ge a.units unitsPerOne with hbelow | habove
    · obtain ⟨m, r, hstep⟩ := exists_digitStep (by omega) le hbelow
      have hvalue := hstep.value_eq_mul hk ((a.value_lt_one_iff).2 hbelow)
      rw [Fades, scaledUp, Function.iterate_succ_apply, hstep.product]
      refine (ih m).trans ?_
      rw [hvalue, pow_succ']
      push_cast
      rw [mul_assoc]
    · have hone : 1 ≤ a.value := not_lt.1 (mt a.value_lt_one_iff.1 (Nat.not_lt.2 habove))
      refine iff_of_false ((AtLeastOne.finite habove).not_fades two_le le (n + 1)) (not_lt.2 ?_)
      exact one_le_mul_of_one_le_of_one_le hone (one_le_pow₀ hbase)

/-! ### Zeros among the digits -/

private theorem digitsVal_eq_zero_iff {b : Nat} (hb : 0 < b) (ds : List Nat) :
    digitsVal b ds = 0 ↔ ∀ d ∈ ds, d = 0 := by
  induction ds with
  | nil => exact iff_of_true rfl nofun
  | cons d ds ih =>
    have hpow : b ^ ds.length ≠ 0 := (Nat.pow_pos hb).ne'
    rw [digitsVal_cons, Nat.add_eq_zero_iff, Nat.mul_eq_zero, or_iff_left hpow, ih, List.forall_mem_cons]

private theorem digitsNat_eq_zero_iff {cs : List Char} (h : ∀ c ∈ cs, isAsciiDigit c = true) :
    digitsNat cs = 0 ↔ ∀ c ∈ cs, c = '0' := by
  have hchar : ∀ c ∈ cs, asciiDigitVal c = 0 ↔ c = '0' := by
    intro c hc
    have hdigit := isAsciiDigit_iff.1 (h c hc)
    rw [asciiDigitVal, ← Char.toNat_inj]
    have hzero : '0'.toNat = 48 := rfl
    omega
  rw [digitsNat, digitsVal_eq_zero_iff (by decide), List.forall_mem_map]
  exact forall₂_congr hchar

theorem digitChar_eq_zero_iff {d : Nat} (h : d < 36) : digitChar d = '0' ↔ d = 0 := by
  constructor
  · intro heq
    have hvalue := digitValue_digitChar h
    rw [heq] at hvalue
    exact hvalue.symm
  · rintro rfl
    rfl

theorem forall_numeral_iff {b : Nat} (two_le : 2 ≤ b) (le : b ≤ 36) (w : Nat) :
    (∀ c ∈ numeral b w, c = '0') ↔ w = 0 := by
  have hdigits : ∀ d ∈ digits b w, d < 36 := fun d hd => Nat.lt_of_lt_of_le (digits_lt two_le w d hd) le
  rw [numeral, List.forall_mem_map, forall₂_congr fun d hd => digitChar_eq_zero_iff (hdigits d hd),
    ← digitsVal_eq_zero_iff (b := b) (by omega), digitsVal_digits two_le]

namespace Magnitude

variable (a : Magnitude) (n : Nat)

private theorem atPlaces_eq_zero_iff_units : a.atPlaces n = 0 ↔ 2 * (a.units * 10 ^ n) ≤ unitsPerOne := by
  rw [atPlaces]
  constructor
  · intro hzero
    have hround := (two_mul_dist_roundDiv (n := a.units * 10 ^ n) unitsPerOne_pos).1
    rwa [hzero, Nat.zero_mul, Nat.dist_zero_right] at hround
  · intro hle
    refine roundDiv_eq unitsPerOne_pos ?_ fun _ => rfl
    rwa [Nat.zero_mul, Nat.dist_zero_right]

/-- A magnitude is rounded to zero exactly if it is at most half a unit of the last place. -/
theorem atPlaces_eq_zero_iff : a.atPlaces n = 0 ↔ 2 * a.value * 10 ^ n ≤ 1 := by
  have hscaled : 2 * a.value * 10 ^ n = ((2 * (a.units * 10 ^ n) : ℕ) : ℚ) / unitsPerOne := by
    rw [value]
    push_cast
    ring
  rw [atPlaces_eq_zero_iff_units, hscaled, div_le_one cast_unitsPerOne_pos, Nat.cast_le]

/-- The digits of a decimal numeral are zeros exactly if the magnitude is rounded to zero. -/
theorem forall_decimal_iff : (∀ c ∈ a.integral n ++ (a.fraction n).rdropWhile (· == '0'), c = '0') ↔
    2 * a.value * 10 ^ n ≤ 1 := by
  have hdigits : ∀ c ∈ a.integral n ++ a.fraction n, isAsciiDigit c = true := fun c hc =>
    (List.mem_append.1 hc).elim (a.isAsciiDigit_of_mem_integral n) (a.isAsciiDigit_of_mem_fraction n)
  rw [← atPlaces_eq_zero_iff, ← digitsNat_integral_append, digitsNat_eq_zero_iff hdigits]
  obtain ⟨m, hm⟩ := exists_append_zeros (a.fraction n)
  have hsplit : a.fraction n = (a.fraction n).rdropWhile (· == '0') ++ List.replicate m '0' := hm
  constructor
  · intro h c hc
    rw [hsplit, ← List.append_assoc, List.mem_append] at hc
    exact hc.elim (h c) List.eq_of_mem_replicate
  · intro h c hc
    refine h c ?_
    rw [hsplit, ← List.append_assoc]
    exact List.mem_append_left _ hc

/-- A number that rounding leaves as it is is zero if it is rounded to zero. -/
theorem value_eq_zero_of_roundTo {s : Bool} (h : Double.roundTo n (.finite s a) = .finite s a)
    (hzero : a.atPlaces n = 0) : a.value = 0 := by
  rw [a.value_eq_zero_iff]
  rcases Nat.lt_or_ge 323 n with hlarge | hsmall
  · -- a unit of the last place is less than the least double
    have hplace := unitsPerOne_lt hlarge
    rw [atPlaces_eq_zero_iff_units] at hzero
    by_contra hne
    have hle := Nat.le_mul_of_pos_left (10 ^ n) (Nat.pos_of_ne_zero hne)
    omega
  · rw [Double.roundTo_of_le hsmall, hzero, Double.ofRatio_zero (Nat.pow_pos (by decide)), Double.zero,
      Double.finite.injEq] at h
    rw [← h.2, units_zero]

end Magnitude

end DeskCalc
