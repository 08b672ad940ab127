import DeskCalc.Binary64.Basic

/-!
# Rounding to the nearest double

An exact nonnegative result is a quotient `num / den` of natural numbers, in units of `2 ^ (-1074)`.
`Magnitude.nearest?` gives the nearest magnitude, the one with the even mantissa if two are equally near, and
nothing if the exact result rounds beyond the largest finite double.  The shift is chosen so that the integral
part of the quotient keeps at most 53 bits.
-/

namespace DeskCalc

/-- The nearest whole number to `num / den`, the even one of two that are equally near. -/
def roundDiv (num den : Nat) : Nat :=
  let q := num / den
  let r := num % den
  if 2 * r < den then q
  else if den < 2 * r then q + 1
  else q + q % 2

theorem le_roundDiv (num den : Nat) : num / den ≤ roundDiv num den := by
  simp only [roundDiv]
  split
  · exact Nat.le_refl _
  · split <;> omega

theorem roundDiv_le (num den : Nat) : roundDiv num den ≤ num / den + 1 := by
  simp only [roundDiv]
  split
  · omega
  · split <;> omega

namespace Magnitude

/-- The shift for a quotient with integral part `q`: what exceeds 53 bits is shifted out. -/
def shiftFor (q : Nat) : Nat :=
  q.log2 - 52

theorem div_shiftFor_lt (q : Nat) : q / 2 ^ shiftFor q < 2 ^ 53 := by
  have hq : q < 2 ^ (q.log2 + 1) := Nat.lt_log2_self
  have hle : (2 : Nat) ^ (q.log2 + 1) ≤ 2 ^ 53 * 2 ^ shiftFor q := by
    rw [← Nat.pow_add]
    exact Nat.pow_le_pow_right (by decide) (by unfold shiftFor; omega)
  exact Nat.div_lt_of_lt_mul (by rw [Nat.mul_comm]; omega)

theorem le_div_shiftFor (q : Nat) : 2 ^ 52 ≤ q / 2 ^ shiftFor q ∨ shiftFor q = 0 := by
  by_cases h : shiftFor q = 0
  · exact Or.inr h
  · refine Or.inl ?_
    have hq0 : q ≠ 0 := by
      intro hq
      rw [hq] at h
      exact h (by decide)
    have hq : 2 ^ q.log2 ≤ q := Nat.log2_self_le hq0
    have heq : (2 : Nat) ^ 52 * 2 ^ shiftFor q = 2 ^ q.log2 := by
      rw [← Nat.pow_add]
      congr 1
      unfold shiftFor at h ⊢
      omega
    exact (Nat.le_div_iff_mul_le (Nat.two_pow_pos _)).2 (by rw [heq]; exact hq)

/-- The nearest magnitude to `num / den` units, if it is finite. -/
def nearest? (num den : Nat) : Option Magnitude :=
  let shift := shiftFor (num / den)
  let m := roundDiv num (den * 2 ^ shift)
  if hm : m < 2 ^ 53 then
    if hs : shift ≤ 2045 then
      some ⟨m, shift, hm, hs, by
        have hle := le_roundDiv num (den * 2 ^ shift)
        rw [← Nat.div_div_eq_div_mul] at hle
        exact (le_div_shiftFor (num / den)).imp (fun h => Nat.le_trans h hle) id⟩
    else none
  else if hs : shift + 1 ≤ 2045 then some ⟨2 ^ 52, shift + 1, by decide, hs, Or.inl (Nat.le_refl _)⟩
  else none

/-- A mantissa that rounds up to 54 bits is `2 ^ 53` exactly, so `nearest?` carries into the shift without loss. -/
theorem roundDiv_shiftFor_le (num den : Nat) :
    roundDiv num (den * 2 ^ shiftFor (num / den)) ≤ 2 ^ 53 := by
  have h := roundDiv_le num (den * 2 ^ shiftFor (num / den))
  rw [← Nat.div_div_eq_div_mul] at h
  have := div_shiftFor_lt (num / den)
  omega

end Magnitude

namespace Double

open Magnitude (unitsPerOne)

/-- The double nearest to `num / den` units, with the given sign; beyond the finite doubles it is infinite. -/
def ofUnits (negative : Bool) (num den : Nat) : Double :=
  match Magnitude.nearest? num den with
  | some a => finite negative a
  | none => infinite negative

/-- The double nearest to the fraction `num / den`, with the given sign. -/
def ofRatio (negative : Bool) (num den : Nat) : Double :=
  ofUnits negative (num * unitsPerOne) den

def ofNat (n : Nat) : Double :=
  ofRatio false n 1

def ofInt (z : Int) : Double :=
  ofRatio (decide (z < 0)) z.natAbs 1

end Double

end DeskCalc
