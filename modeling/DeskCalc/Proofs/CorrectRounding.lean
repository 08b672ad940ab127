import Mathlib.Tactic.Linarith
import DeskCalc.Proofs.NumeralValue

/-!
# Correct rounding

A magnitude is the nearest one to a number if no other is nearer, and its mantissa is even if another one is as near
(`Magnitude.IsNearest`).  There is at most one such magnitude, since the one that comes after an even mantissa is odd
(`Magnitude.IsNearest.unique`).

`Magnitude.nearest?` computes it, for every quotient of units that is less than half a unit of the last place above the
largest magnitude; for all others it has no result (`Magnitude.isNearest_of_nearest?`, `Magnitude.nearest?_eq_none_iff`).
-/

namespace DeskCalc

namespace Magnitude

/-- No magnitude is nearer to the number, and among two that are as near it is the one with the even mantissa. -/
structure IsNearest (q : ℚ) (a : Magnitude) : Prop where
  le : ∀ b : Magnitude, |a.value - q| ≤ |b.value - q|
  even : ∀ b : Magnitude, b ≠ a → |b.value - q| = |a.value - q| → a.mantissa % 2 = 0

/-! ### There is only one -/

/-- A larger magnitude is larger by at least a unit of the last place. -/
theorem units_add_le {a b : Magnitude} (h : a.units < b.units) : a.units + 2 ^ a.shift ≤ b.units := by
  -- larger magnitudes are multiples of the same power of two
  have hshift : a.shift ≤ b.shift := by
    by_contra hsmall
    exact absurd (units_lt_of_shift_lt (Nat.not_le.1 hsmall)) (by omega)
  have hmultiple : b.units = b.mantissa * 2 ^ (b.shift - a.shift) * 2 ^ a.shift := by
    rw [Nat.mul_assoc, ← Nat.pow_add, Nat.sub_add_cancel hshift]
    rfl
  rw [hmultiple] at h ⊢
  have hsucc : a.mantissa + 1 ≤ b.mantissa * 2 ^ (b.shift - a.shift) := Nat.lt_of_mul_lt_mul_right h
  calc a.mantissa * 2 ^ a.shift + 2 ^ a.shift
    _ = (a.mantissa + 1) * 2 ^ a.shift := (Nat.succ_mul _ _).symm
    _ ≤ b.mantissa * 2 ^ (b.shift - a.shift) * 2 ^ a.shift := Nat.mul_le_mul_right _ hsucc

/-- The magnitude after one with an even mantissa has an odd one, and there is no magnitude between them. -/
private theorem exists_next {a : Magnitude} (h : a.mantissa % 2 = 0) :
    ∃ c : Magnitude, c.mantissa % 2 = 1 ∧ a.units < c.units ∧ ∀ b : Magnitude, a.units < b.units → c.units ≤ b.units := by
  have hlt := a.mantissa_lt
  have hnormal := a.normal
  have hsucc : (a.mantissa + 1) * 2 ^ a.shift = a.units + 2 ^ a.shift := Nat.succ_mul _ _
  have hpos := Nat.two_pow_pos a.shift
  refine ⟨⟨a.mantissa + 1, a.shift, by omega, a.shift_le, by omega⟩, by dsimp only; omega, ?_, fun b hb => ?_⟩
  · show a.units < (a.mantissa + 1) * 2 ^ a.shift
    omega
  · show (a.mantissa + 1) * 2 ^ a.shift ≤ b.units
    rw [hsucc]
    exact units_add_le hb

/-- Two nearest magnitudes of different size would be neighbours with even mantissas. -/
theorem IsNearest.not_lt {q : ℚ} {a b : Magnitude} (ha : a.IsNearest q) (hb : b.IsNearest q) : ¬a.units < b.units := by
  intro hlt
  have hne : b ≠ a := fun h => absurd hlt (by rw [h]; exact Nat.lt_irrefl _)
  have hdist : |b.value - q| = |a.value - q| := le_antisymm (hb.le a) (ha.le b)
  have hvalue := value_lt_value_iff.2 hlt
  have hmiddle : q - a.value = b.value - q := by
    rcases abs_eq_abs.1 hdist with h | h <;> linarith
  obtain ⟨c, hodd, hac, hleast⟩ := exists_next (ha.even b hne hdist)
  rcases Nat.lt_or_eq_of_le (hleast b hlt) with hcb | hcb
  · -- what lies between them is nearer to their middle
    have hfirst := value_lt_value_iff.2 hac
    have hsecond := value_lt_value_iff.2 hcb
    have hnear := ha.le c
    rw [abs_sub_comm, abs_of_nonneg (show 0 ≤ q - a.value by linarith)] at hnear
    rcases abs_cases (c.value - q) with ⟨h, -⟩ | ⟨h, -⟩ <;> linarith
  · have heven := hb.even a hne.symm hdist.symm
    rw [← eq_of_units_eq hcb] at heven
    omega

theorem IsNearest.unique {q : ℚ} {a b : Magnitude} (ha : a.IsNearest q) (hb : b.IsNearest q) : a = b :=
  eq_of_units_eq (Nat.le_antisymm (Nat.not_lt.1 (hb.not_lt ha)) (Nat.not_lt.1 (ha.not_lt hb)))

/-! ### It is computed -/

section Nearest

variable {num den : Nat}

private theorem mantissa_of_nearest? {r : Magnitude} (h : nearest? num den = some r) :
    r.mantissa = roundDiv num (den * 2 ^ shiftFor (num / den)) ∨ r.mantissa = 2 ^ 52 := by
  simp only [nearest?] at h
  split at h
  · split at h
    · cases h
      exact .inl rfl
    · cases h
  · split at h
    · cases h
      exact .inr rfl
    · cases h

/-- If another magnitude is as near, the mantissa is even. -/
private theorem even_of_nearest? {r b : Magnitude} (hden : 0 < den) (h : nearest? num den = some r) (hne : b ≠ r)
    (hdist : Nat.dist num (b.units * den) = Nat.dist num (r.units * den)) : r.mantissa % 2 = 0 := by
  have hr := units_of_nearest? h
  have hmantissa := mantissa_of_nearest? h
  have hbetween := exists_multiple_or_lt b num den
  generalize hstep : 2 ^ shiftFor (num / den) = step at *
  have hpos : 0 < den * step := Nat.mul_pos hden (hstep ▸ Nat.two_pow_pos _)
  have hassoc : ∀ j, j * step * den = j * (den * step) := fun j => by rw [Nat.mul_assoc, Nat.mul_comm step]
  obtain ⟨hround, heven⟩ := two_mul_dist_roundDiv (n := num) hpos
  rw [hr, hassoc] at hdist
  rcases hbetween with ⟨k, hk⟩ | ⟨hlt, hle⟩
  · -- two multiples as near are both half a step away
    have hk_ne : k ≠ roundDiv num (den * step) := fun heq => hne (eq_of_units_eq (by rw [hk, hr, heq]))
    rw [hk, hassoc] at hdist
    have hapart := le_dist_mul hk_ne (den * step)
    have htriangle := Nat.dist.triangle_inequality (k * (den * step)) num (roundDiv num (den * step) * (den * step))
    rw [Nat.dist_comm (k * (den * step)) num, hdist] at htriangle
    have htie := heven (by omega)
    rcases hmantissa with hm | hm <;> omega
  · -- the least mantissa of 53 bits is nearer than what lies below it
    have hquot : 2 ^ 52 * step * den ≤ num := (Nat.le_div_iff_mul_le hden).1 hle
    have hbelow : b.units * den < 2 ^ 52 * step * den := Nat.mul_lt_mul_of_pos_right hlt hden
    have hnear := dist_roundDiv_le (n := num) hpos (2 ^ 52)
    rw [hassoc] at hquot hbelow
    rw [← hdist, Nat.dist_eq_sub_of_le_right (by omega), Nat.dist_eq_sub_of_le_right hquot] at hnear
    omega

/-- Distances of numerators are distances of numbers, in another scale. -/
private theorem abs_value_sub (hden : 0 < den) (a : Magnitude) :
    |a.value - num / (den * unitsPerOne)| = (Nat.dist num (a.units * den) : ℚ) / (den * unitsPerOne) := by
  have hscale : (0 : ℚ) < den * unitsPerOne := mul_pos (Nat.cast_pos.2 hden) cast_unitsPerOne_pos
  have hvalue : a.value = ((a.units * den : ℕ) : ℚ) / (den * unitsPerOne) := by
    rw [value, Nat.cast_mul, mul_comm (den : ℚ), mul_div_mul_right _ _ (Nat.cast_pos.2 hden).ne']
  rw [hvalue, ← sub_div, abs_div, abs_sub_eq_dist, abs_of_pos hscale]

/-- Which magnitude is nearest can be seen from the distances of numerators. -/
theorem isNearest_iff_dist (hden : 0 < den) (a : Magnitude) :
    a.IsNearest (num / (den * unitsPerOne)) ↔
      (∀ b : Magnitude, Nat.dist num (a.units * den) ≤ Nat.dist num (b.units * den)) ∧
        ∀ b : Magnitude, b ≠ a → Nat.dist num (b.units * den) = Nat.dist num (a.units * den) → a.mantissa % 2 = 0 := by
  have hscale : (0 : ℚ) < den * unitsPerOne := mul_pos (Nat.cast_pos.2 hden) cast_unitsPerOne_pos
  have hle : ∀ b : Magnitude, |a.value - num / (den * unitsPerOne)| ≤ |b.value - num / (den * unitsPerOne)| ↔
      Nat.dist num (a.units * den) ≤ Nat.dist num (b.units * den) := by
    intro b
    rw [abs_value_sub hden, abs_value_sub hden, div_le_div_iff_of_pos_right hscale, Nat.cast_le]
  have heq : ∀ b : Magnitude, |b.value - num / (den * unitsPerOne)| = |a.value - num / (den * unitsPerOne)| ↔
      Nat.dist num (b.units * den) = Nat.dist num (a.units * den) := by
    intro b
    rw [abs_value_sub hden, abs_value_sub hden, div_left_inj' hscale.ne', Nat.cast_inj]
  constructor
  · exact fun h => ⟨fun b => (hle b).1 (h.le b), fun b hne hdist => h.even b hne ((heq b).2 hdist)⟩
  · exact fun h => ⟨fun b => (hle b).2 (h.1 b), fun b hne hdist => h.2 b hne ((heq b).1 hdist)⟩

theorem isNearest_of_nearest? {r : Magnitude} (hden : 0 < den) (h : nearest? num den = some r) :
    r.IsNearest (num / (den * unitsPerOne)) :=
  (isNearest_iff_dist hden r).2 ⟨dist_nearest?_le hden h, fun _ => even_of_nearest? hden h⟩

/-- From half a step above the largest mantissa on, with an exponent `e` in the place of 2044, the shift is too large or
the mantissa rounds up to 54 bits. -/
private theorem lt_shiftFor_or_carry {e : Nat} (hden : 0 < den) (h : (2 ^ 54 - 1) * 2 ^ e * den ≤ num) :
    e + 1 < shiftFor (num / den) ∨
      shiftFor (num / den) = e + 1 ∧ 2 ^ 53 ≤ roundDiv num (den * 2 ^ shiftFor (num / den)) := by
  have hquot : (2 ^ 54 - 1) * 2 ^ e ≤ num / den := (Nat.le_div_iff_mul_le hden).2 h
  have hlarge : 2 ^ (53 + e) ≤ num / den := by
    rw [Nat.pow_add]
    exact Nat.le_trans (Nat.mul_le_mul_right _ (by decide)) hquot
  have hlog := (Nat.le_log2 (Nat.ne_of_gt (Nat.lt_of_lt_of_le (Nat.two_pow_pos _) hlarge))).2 hlarge
  rcases Nat.lt_or_ge (e + 1) (shiftFor (num / den)) with hlt | hge
  · exact .inl hlt
  · have hshift : shiftFor (num / den) = e + 1 := by
      rw [shiftFor] at hge ⊢
      omega
    refine .inr ⟨hshift, ?_⟩
    rw [hshift]
    have hdouble : den * 2 ^ (e + 1) = 2 * (2 ^ e * den) := by
      rw [Nat.pow_succ, Nat.mul_comm den, Nat.mul_comm _ 2, Nat.mul_assoc]
    have hpos : 0 < 2 ^ e * den := Nat.mul_pos (Nat.two_pow_pos e) hden
    rw [Nat.mul_assoc] at h
    rw [hdouble]
    generalize 2 ^ e * den = half at h hpos
    have hdiv : 2 ^ 53 - 1 ≤ num / (2 * half) := (Nat.le_div_iff_mul_le (by omega)).2 (by omega)
    have hsplit := Nat.div_add_mod num (2 * half)
    rcases Nat.lt_or_ge (num / (2 * half)) (2 ^ 53) with hbelow | habove
    · -- at least half a step is left, and the quotient is odd
      have heq : num / (2 * half) = 2 ^ 53 - 1 := by omega
      have hrest : half ≤ num % (2 * half) := by
        rw [heq] at hsplit
        omega
      rcases roundDiv_cases num (2 * half) with ⟨-, hle, htie⟩ | ⟨hround, -, -⟩
      · have heven := htie (by omega)
        omega
      · omega
    · exact Nat.le_trans habove (le_roundDiv num (2 * half))

/-- A quotient has a nearest magnitude exactly if it is less than half a unit of the last place above the largest. -/
theorem nearest?_eq_none_iff (hden : 0 < den) : nearest? num den = none ↔ overflowUnits * den ≤ num := by
  constructor
  · intro h
    by_contra hlt
    obtain ⟨b, hb⟩ := exists_nearest? hden (Nat.not_le.1 hlt)
    rw [h] at hb
    cases hb
  · intro h
    rw [overflowUnits] at h
    simp only [nearest?]
    rcases lt_shiftFor_or_carry hden h with hlarge | ⟨hshift, hcarry⟩
    · split
      · exact dif_neg (by omega)
      · exact dif_neg (by omega)
    · rw [dif_neg (by omega)]
      exact dif_neg (by omega)

end Nearest

end Magnitude

end DeskCalc
