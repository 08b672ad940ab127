import Mathlib.Data.Nat.Dist
import DeskCalc.Binary64.Nearest

/-!
# The nearest double

What rounding means, apart from how it is computed: `roundDiv` is at most half away and even if it is exactly half
away, which determines it (`roundDiv_eq`), and no magnitude is nearer to a quotient than the one that `nearest?`
returns (`Magnitude.dist_nearest?_le`).  A quotient that is not larger than every magnitude by more than half a unit
of the last place has a nearest one (`Magnitude.exists_nearest?`).

All distances are distances of natural numbers: those of the numerator from multiples of the denominator.
-/

namespace DeskCalc

/-! ### Whole numbers -/

section RoundDiv

variable {n d k : Nat}

theorem roundDiv_cases (n d : Nat) :
    roundDiv n d = n / d ∧ 2 * (n % d) ≤ d ∧ (2 * (n % d) = d → n / d % 2 = 0) ∨
      roundDiv n d = n / d + 1 ∧ d ≤ 2 * (n % d) ∧ (2 * (n % d) = d → (n / d + 1) % 2 = 0) := by
  simp only [roundDiv]
  split
  · exact .inl ⟨rfl, by omega, by omega⟩
  · split
    · exact .inr ⟨rfl, by omega, by omega⟩
    · rcases Nat.mod_two_eq_zero_or_one (n / d) with h | h
      · exact .inl ⟨by omega, by omega, fun _ => h⟩
      · exact .inr ⟨by omega, by omega, by omega⟩

/-- The rounded quotient is at most half away, and it is even if it is exactly half away. -/
theorem two_mul_dist_roundDiv (hd : 0 < d) :
    2 * Nat.dist n (roundDiv n d * d) ≤ d ∧ (2 * Nat.dist n (roundDiv n d * d) = d → roundDiv n d % 2 = 0) := by
  have hsplit := Nat.div_add_mod' n d
  have hlt := Nat.mod_lt n hd
  have hsucc : (n / d + 1) * d = n / d * d + d := Nat.succ_mul (n / d) d
  rcases roundDiv_cases n d with ⟨h, hle, heven⟩ | ⟨h, hle, heven⟩
  · rw [h, Nat.dist]
    exact ⟨by omega, fun htie => heven (by omega)⟩
  · rw [h, hsucc, Nat.dist]
    exact ⟨by omega, fun htie => heven (by omega)⟩

/-- Different multiples of a number are at least that number apart. -/
theorem le_dist_mul {m k : Nat} (h : m ≠ k) (d : Nat) : d ≤ Nat.dist (m * d) (k * d) := by
  have hpos : 1 ≤ Nat.dist m k := by
    rw [Nat.dist]
    omega
  rw [Nat.dist_mul_right]
  exact Nat.le_mul_of_pos_left d hpos

theorem roundDiv_eq (hd : 0 < d) (hle : 2 * Nat.dist n (k * d) ≤ d)
    (htie : 2 * Nat.dist n (k * d) = d → k % 2 = 0) : roundDiv n d = k := by
  obtain ⟨hround, hround_tie⟩ := two_mul_dist_roundDiv (n := n) hd
  by_contra hne
  have hapart := le_dist_mul hne d
  have htriangle := Nat.dist.triangle_inequality (roundDiv n d * d) n (k * d)
  rw [Nat.dist_comm (roundDiv n d * d) n] at htriangle
  -- both are ties, so both are even and more than one step apart
  have hk : k % 2 = 0 := htie (by omega)
  have hr : roundDiv n d % 2 = 0 := hround_tie (by omega)
  have htwo : 2 ≤ Nat.dist (roundDiv n d) k := by
    rw [Nat.dist]
    omega
  have hfar := Nat.mul_le_mul_right d htwo
  rw [← Nat.dist_mul_right] at hfar
  omega

theorem roundDiv_mul_self (hd : 0 < d) (k : Nat) : roundDiv (k * d) d = k := by
  refine roundDiv_eq hd ?_ fun htie => ?_
  · rw [Nat.dist_self]
    exact Nat.zero_le _
  · rw [Nat.dist_self] at htie
    exact absurd htie (Nat.ne_of_lt hd)

/-- No multiple is nearer than the rounded one. -/
theorem dist_roundDiv_le (hd : 0 < d) (k : Nat) : Nat.dist n (roundDiv n d * d) ≤ Nat.dist n (k * d) := by
  by_cases h : roundDiv n d = k
  · rw [h]
  · have hround := (two_mul_dist_roundDiv (n := n) hd).1
    have hapart := le_dist_mul h d
    have htriangle := Nat.dist.triangle_inequality (roundDiv n d * d) n (k * d)
    rw [Nat.dist_comm (roundDiv n d * d) n] at htriangle
    omega

private theorem roundDiv_mul_right {c : Nat} (hc : 0 < c) (n d : Nat) : roundDiv (n * c) (d * c) = roundDiv n d := by
  have hdouble : 2 * (n % d * c) = 2 * (n % d) * c := (Nat.mul_assoc 2 (n % d) c).symm
  simp only [roundDiv, Nat.mul_div_mul_right n d hc, Nat.mul_mod_mul_right, hdouble, Nat.mul_lt_mul_right hc]

end RoundDiv

/-! ### Magnitudes -/

namespace Magnitude

/-- The magnitudes of one shift are below the next power of two. -/
theorem units_lt (a : Magnitude) : a.units < 2 ^ 53 * 2 ^ a.shift :=
  Nat.mul_lt_mul_of_pos_right a.mantissa_lt (Nat.two_pow_pos a.shift)

/-- The least number of units that rounds beyond the largest magnitude. -/
def overflowUnits : Nat :=
  (2 ^ 54 - 1) * 2 ^ 2044

/-- Every magnitude lies below the overflow by more than one. -/
theorem units_add_lt (a : Magnitude) : a.units + unitsPerOne < overflowUnits := by
  have hpow : ∀ e, a.shift ≤ e → 2 ^ a.shift ≤ 2 ^ e := fun _ => Nat.pow_le_pow_right (by decide)
  have hle : a.units ≤ (2 ^ 53 - 1) * 2 ^ 2045 :=
    Nat.mul_le_mul (Nat.le_sub_one_of_lt a.mantissa_lt) (hpow 2045 a.shift_le)
  have hlt : (2 ^ 53 - 1) * 2 ^ 2045 + unitsPerOne < overflowUnits := by decide +kernel
  exact Nat.lt_of_le_of_lt (Nat.add_le_add_right hle _) hlt

/-- Every magnitude lies below the key of the infinity. -/
theorem units_lt_infinite (a : Magnitude) : a.units < 2 ^ 2098 := by
  have hoverflow : overflowUnits ≤ 2 ^ 2098 := by decide +kernel
  exact Nat.lt_of_lt_of_le (Nat.lt_of_le_of_lt (Nat.le_add_right _ _) a.units_add_lt) hoverflow

/-- A normal form with a larger shift is a larger number. -/
theorem units_lt_of_shift_lt {a b : Magnitude} (h : a.shift < b.shift) : a.units < b.units := by
  have hnormal : 2 ^ 52 ≤ b.mantissa := b.normal.resolve_right (by omega)
  have hpow : (2 : Nat) ^ 53 * 2 ^ a.shift ≤ 2 ^ 52 * 2 ^ b.shift := by
    rw [← Nat.pow_add, ← Nat.pow_add]
    exact Nat.pow_le_pow_right (by decide) (by omega)
  calc a.units < 2 ^ 53 * 2 ^ a.shift := a.units_lt
    _ ≤ 2 ^ 52 * 2 ^ b.shift := hpow
    _ ≤ b.units := Nat.mul_le_mul_right _ hnormal

/-- A magnitude is determined by its value. -/
theorem eq_of_units_eq {a b : Magnitude} (h : a.units = b.units) : a = b := by
  have hshift : a.shift = b.shift := by
    rcases Nat.lt_trichotomy a.shift b.shift with hlt | heq | hlt
    · exact absurd h (Nat.ne_of_lt (units_lt_of_shift_lt hlt))
    · exact heq
    · exact absurd h.symm (Nat.ne_of_lt (units_lt_of_shift_lt hlt))
  have hmantissa : a.mantissa = b.mantissa := by
    rw [units, units, hshift] at h
    exact Nat.eq_of_mul_eq_mul_right (Nat.two_pow_pos b.shift) h
  obtain ⟨m, e, _, _, _⟩ := a
  obtain ⟨m', e', _, _, _⟩ := b
  cases hshift
  cases hmantissa
  rfl

/-! ### The nearest magnitude -/

section Nearest

variable {num den : Nat}

/-- The nearest magnitude is the multiple of a power of two that the quotient is rounded to. -/
theorem units_of_nearest? {b : Magnitude} (h : nearest? num den = some b) :
    b.units = roundDiv num (den * 2 ^ shiftFor (num / den)) * 2 ^ shiftFor (num / den) := by
  have hle := roundDiv_shiftFor_le num den
  simp only [nearest?] at h
  split at h
  · split at h
    · cases h
      rfl
    · cases h
  · rename_i hlt
    split at h
    · cases h
      have hm : roundDiv num (den * 2 ^ shiftFor (num / den)) = 2 ^ 53 := by omega
      show 2 ^ 52 * 2 ^ (shiftFor (num / den) + 1) = _
      rw [hm, ← Nat.pow_add, ← Nat.pow_add, Nat.add_comm _ 1, ← Nat.add_assoc]
    · cases h

/-- A magnitude is a multiple of the power of two, or it lies below all quotients that are rounded to multiples. -/
theorem exists_multiple_or_lt (a : Magnitude) (num den : Nat) :
    (∃ k, a.units = k * 2 ^ shiftFor (num / den)) ∨
      a.units < 2 ^ 52 * 2 ^ shiftFor (num / den) ∧ 2 ^ 52 * 2 ^ shiftFor (num / den) ≤ num / den := by
  rcases Nat.lt_or_ge a.shift (shiftFor (num / den)) with hlt | hge
  · right
    constructor
    · have hpow : (2 : Nat) ^ 53 * 2 ^ a.shift ≤ 2 ^ 52 * 2 ^ shiftFor (num / den) := by
        rw [← Nat.pow_add, ← Nat.pow_add]
        exact Nat.pow_le_pow_right (by decide) (by omega)
      exact Nat.lt_of_lt_of_le a.units_lt hpow
    · have hquot := (le_div_shiftFor (num / den)).resolve_right (by omega)
      exact (Nat.le_div_iff_mul_le (Nat.two_pow_pos _)).1 hquot
  · left
    refine ⟨a.mantissa * 2 ^ (a.shift - shiftFor (num / den)), ?_⟩
    rw [Nat.mul_assoc, ← Nat.pow_add, Nat.sub_add_cancel hge]
    rfl

/-- No magnitude is nearer than the nearest one. -/
theorem dist_nearest?_le {b : Magnitude} (hden : 0 < den) (h : nearest? num den = some b) (a : Magnitude) :
    Nat.dist num (b.units * den) ≤ Nat.dist num (a.units * den) := by
  have hb := units_of_nearest? h
  rcases exists_multiple_or_lt a num den with ⟨k, hk⟩ | ⟨hlt, hle⟩
  all_goals
    generalize hstep : 2 ^ shiftFor (num / den) = step at *
    have hpos : 0 < den * step := Nat.mul_pos hden (hstep ▸ Nat.two_pow_pos _)
    have hassoc : ∀ j, j * step * den = j * (den * step) := fun j => by rw [Nat.mul_assoc, Nat.mul_comm step]
  · rw [hb, hk, hassoc, hassoc]
    exact dist_roundDiv_le hpos k
  · -- the least mantissa of 53 bits lies between the magnitude and the quotient
    have hbetween : 2 ^ 52 * step * den ≤ num := (Nat.le_div_iff_mul_le hden).1 hle
    have hbelow : a.units * den ≤ 2 ^ 52 * step * den := Nat.mul_le_mul_right den (Nat.le_of_lt hlt)
    have hround := dist_roundDiv_le (n := num) hpos (2 ^ 52)
    rw [hb, hassoc]
    rw [hassoc] at hbetween hbelow
    rw [Nat.dist_eq_sub_of_le_right hbetween] at hround
    rw [Nat.dist_eq_sub_of_le_right (Nat.le_trans hbelow hbetween)]
    omega

/-- Rounding does not go below a magnitude that the quotient is not below. -/
theorem units_le_of_nearest? {a b : Magnitude} (hden : 0 < den) (h : nearest? num den = some b)
    (hle : a.units * den ≤ num) : a.units ≤ b.units := by
  by_contra hlt
  have hnear := dist_nearest?_le hden h a
  have hmul : b.units * den < a.units * den := Nat.mul_lt_mul_of_pos_right (Nat.not_le.1 hlt) hden
  rw [Nat.dist_eq_sub_of_le_right hle, Nat.dist_eq_sub_of_le_right (by omega)] at hnear
  omega

/-- Below the overflow, with an exponent `e` in the place of 2044, a quotient has a shift of at most `e + 1`, and with
that shift it keeps 53 bits. -/
private theorem shiftFor_le_of_lt {q e : Nat} (h : q < (2 ^ 54 - 1) * 2 ^ e) : shiftFor q ≤ e + 1 := by
  rw [shiftFor]
  by_cases hzero : q = 0
  · rw [hzero, Nat.log2_zero]
    omega
  · have hpow : q < 2 ^ (54 + e) := by
      rw [Nat.pow_add]
      exact Nat.lt_of_lt_of_le h (Nat.mul_le_mul_right _ (by decide))
    have hlog := (Nat.log2_lt hzero).2 hpow
    omega

private theorem roundDiv_lt_of_lt {e : Nat} (hden : 0 < den) (h : num < (2 ^ 54 - 1) * 2 ^ e * den) :
    roundDiv num (den * 2 ^ (e + 1)) < 2 ^ 53 := by
  by_contra hle
  have hpos : 0 < den * 2 ^ (e + 1) := Nat.mul_pos hden (Nat.two_pow_pos _)
  have hround := (two_mul_dist_roundDiv (n := num) hpos).1
  have hmul : 2 ^ 53 * (den * 2 ^ (e + 1)) ≤ roundDiv num (den * 2 ^ (e + 1)) * (den * 2 ^ (e + 1)) :=
    Nat.mul_le_mul_right _ (Nat.le_of_not_lt hle)
  have hdouble : den * 2 ^ (e + 1) = 2 * (2 ^ e * den) := by
    rw [Nat.pow_succ, Nat.mul_comm den, Nat.mul_comm _ 2, Nat.mul_assoc]
  rw [Nat.mul_assoc] at h
  rw [Nat.dist] at hround
  rw [hdouble] at hround hmul
  omega

/-- A quotient that is not too large has a nearest magnitude. -/
theorem exists_nearest? (hden : 0 < den) (h : num < overflowUnits * den) : ∃ b, nearest? num den = some b := by
  unfold overflowUnits at h
  have hshift : shiftFor (num / den) ≤ 2044 + 1 := shiftFor_le_of_lt ((Nat.div_lt_iff_lt_mul hden).2 h)
  simp only [nearest?]
  split
  · exact ⟨_, rfl⟩
  · rename_i hm
    have hcarry : shiftFor (num / den) + 1 ≤ 2045 := by
      by_contra hlarge
      have heq : shiftFor (num / den) = 2044 + 1 := by omega
      rw [heq] at hm
      exact hm (roundDiv_lt_of_lt hden h)
    exact ⟨_, dif_pos hcarry⟩

theorem nearest?_mul_right {c : Nat} (hc : 0 < c) (num den : Nat) : nearest? (num * c) (den * c) = nearest? num den := by
  have hround : ∀ e, roundDiv (num * c) (den * c * e) = roundDiv num (den * e) := by
    intro e
    rw [Nat.mul_right_comm]
    exact roundDiv_mul_right hc num (den * e)
  simp only [nearest?, Nat.mul_div_mul_right num den hc, hround]

/-- Less than half a unit is rounded to zero. -/
theorem nearest?_of_two_mul_lt (h : 2 * num < den) : nearest? num den = some zero := by
  have hden : 0 < den := by omega
  have hoverflow : 1 ≤ overflowUnits := by decide +kernel
  have hlt : num < overflowUnits * den := Nat.lt_of_lt_of_le (by omega) (Nat.le_mul_of_pos_left den hoverflow)
  obtain ⟨b, hb⟩ := exists_nearest? hden hlt
  have hunits := units_of_nearest? hb
  have hshift : shiftFor (num / den) = 0 := by
    rw [Nat.div_eq_of_lt (by omega)]
    rfl
  have hround : roundDiv num den = 0 := by
    refine roundDiv_eq hden ?_ fun _ => rfl
    rw [Nat.zero_mul, Nat.dist_zero_right]
    omega
  rw [hshift, Nat.pow_zero, Nat.mul_one, Nat.mul_one, hround, ← units_zero] at hunits
  rw [hb, eq_of_units_eq hunits]

/-- A multiple of the units of a magnitude has that magnitude as the nearest one. -/
theorem nearest?_units_mul (hden : 0 < den) (a : Magnitude) : nearest? (a.units * den) den = some a := by
  have hlt : a.units < overflowUnits := Nat.lt_of_le_of_lt (Nat.le_add_right _ unitsPerOne) a.units_add_lt
  obtain ⟨b, hb⟩ := exists_nearest? hden (Nat.mul_lt_mul_of_pos_right hlt hden)
  have hdist := dist_nearest?_le hden hb a
  rw [Nat.dist_self, Nat.le_zero] at hdist
  have hmul := Nat.eq_of_dist_eq_zero hdist
  rw [hb, eq_of_units_eq (Nat.eq_of_mul_eq_mul_right hden hmul)]

end Nearest

end Magnitude

end DeskCalc
