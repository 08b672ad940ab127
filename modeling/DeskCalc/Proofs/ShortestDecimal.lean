import Mathlib.Algebra.Group.Defs
import DeskCalc.Decimal.Shortest
import DeskCalc.Proofs.CorrectRounding

/-!
# The shortest decimal is read back

The numbers that are rounded to a magnitude are those of its rounding interval (`Magnitude.InInterval`): half a unit of
the last place to both sides, a quarter below a power of two, and the ends if the mantissa is even
(`Magnitude.InInterval.nearest?_eq`).

A magnitude with `k` digits before the point is at least `10 ^ (k - 1)`, so a step of the grid with 17 digits is less
than a unit of the last place.  So one of the neighbours on this grid lies in the interval, and a shortest decimal is
found (`Magnitude.ofRatio_shortest`).
-/

namespace DeskCalc

namespace Magnitude

/-! ### Rounding intervals -/

/-- Twice the distance to the magnitude before: below a power of two they are twice as dense. -/
def gapBelow (a : Magnitude) : Nat :=
  if a.mantissa = 2 ^ 52 ∧ 0 < a.shift then 2 ^ a.shift else 2 * 2 ^ a.shift

private theorem gapBelow_pos (a : Magnitude) : 0 < a.gapBelow := by
  have hpos := Nat.two_pow_pos a.shift
  rw [gapBelow]
  split <;> omega

/-- A smaller magnitude is smaller by at least the gap. -/
private theorem two_mul_add_gapBelow_le {a b : Magnitude} (h : b.units < a.units) :
    2 * b.units + a.gapBelow ≤ 2 * a.units := by
  rcases Nat.lt_or_ge b.shift a.shift with hlt | hge
  · -- the mantissas have 53 bits, and the power of two lies between
    have hnormal : 2 ^ 52 ≤ a.mantissa := a.normal.resolve_right (by omega)
    obtain ⟨e, he⟩ : ∃ e, a.shift = e + 1 := ⟨a.shift - 1, by omega⟩
    have hpow : 2 ^ b.shift ≤ 2 ^ e := Nat.pow_le_pow_right (by decide) (by omega)
    have hdouble : 2 ^ a.shift = 2 * 2 ^ e := by rw [he, Nat.pow_succ, Nat.mul_comm]
    have hb : b.units ≤ (2 ^ 53 - 1) * 2 ^ e := Nat.mul_le_mul (Nat.le_sub_one_of_lt b.mantissa_lt) hpow
    rw [gapBelow]
    split
    · rename_i hboundary
      have ha : a.units = 2 ^ 52 * 2 ^ a.shift := by rw [units, hboundary.1]
      rw [hdouble] at ha ⊢
      omega
    · have hbeyond : 2 ^ 52 + 1 ≤ a.mantissa := by omega
      have ha : (2 ^ 52 + 1) * 2 ^ a.shift ≤ a.units := Nat.mul_le_mul_right _ hbeyond
      rw [hdouble] at ha ⊢
      omega
  · have hstep := units_add_le h
    have hpow : 2 ^ a.shift ≤ 2 ^ b.shift := Nat.pow_le_pow_right (by decide) hge
    have hgap : a.gapBelow ≤ 2 * 2 ^ a.shift := by
      rw [gapBelow]
      split <;> omega
    omega

/-- The quotient `num / den`, in units, is at most half way from the magnitude to the ones before and after it, and the
mantissa is even if it is exactly half way. -/
structure InInterval (a : Magnitude) (num den : Nat) : Prop where
  le_add : 4 * (a.units * den) ≤ 4 * num + a.gapBelow * den
  le : 4 * num ≤ 4 * (a.units * den) + 2 * (2 ^ a.shift * den)
  even : 4 * (a.units * den) = 4 * num + a.gapBelow * den ∨ 4 * num = 4 * (a.units * den) + 2 * (2 ^ a.shift * den) →
    a.mantissa % 2 = 0

section Interval

variable {a : Magnitude} {num den : Nat}

namespace InInterval

private theorem isNearest (hden : 0 < den) (h : a.InInterval num den) : a.IsNearest (num / (den * unitsPerOne)) := by
  have hfirst := h.le_add
  have hlast := h.le
  have hbelow : ∀ b : Magnitude, b.units < a.units → 2 * (b.units * den) + a.gapBelow * den ≤ 2 * (a.units * den) := by
    intro b hlt
    have hgap := Nat.mul_le_mul_right den (two_mul_add_gapBelow_le hlt)
    rwa [Nat.add_mul, Nat.mul_assoc, Nat.mul_assoc] at hgap
  have habove : ∀ b : Magnitude, a.units < b.units → a.units * den + 2 ^ a.shift * den ≤ b.units * den := by
    intro b hlt
    rw [← Nat.add_mul]
    exact Nat.mul_le_mul_right den (units_add_le hlt)
  refine (isNearest_iff_dist hden a).2 ⟨fun b => ?_, fun b hne hdist => h.even ?_⟩
  · rcases Nat.lt_trichotomy b.units a.units with hlt | heq | hlt
    · have hgap := hbelow b hlt
      rw [Nat.dist, Nat.dist]
      omega
    · rw [heq]
    · have hgap := habove b hlt
      rw [Nat.dist, Nat.dist]
      omega
  · -- as near is only what lies on the other side of an end
    have hgap_pos : 0 < a.gapBelow * den := Nat.mul_pos a.gapBelow_pos hden
    have hstep_pos : 0 < 2 ^ a.shift * den := Nat.mul_pos (Nat.two_pow_pos _) hden
    rw [Nat.dist, Nat.dist] at hdist
    rcases Nat.lt_or_gt_of_ne (mt eq_of_units_eq hne) with hlt | hlt
    · have hgap := hbelow b hlt
      left
      omega
    · have hgap := habove b hlt
      right
      omega

/-- The interval of the largest magnitude ends where the overflow begins, with an exponent `e` in the place of 2044. -/
private theorem not_le_of_shift_le {e : Nat} (hden : 0 < den) (h : a.InInterval num den) (hshift : a.shift ≤ e + 1) :
    ¬(2 ^ 54 - 1) * 2 ^ e * den ≤ num := by
  intro hoverflow
  have hlast := h.le
  have heven := h.even
  have hmantissa := a.mantissa_lt
  have hunits : a.units * den = a.mantissa * (2 ^ a.shift * den) := Nat.mul_assoc _ _ _
  have hstep : 2 ^ a.shift * den ≤ 2 * (2 ^ e * den) := by
    have hpow : 2 ^ a.shift ≤ 2 * 2 ^ e := by
      rw [Nat.mul_comm, ← Nat.pow_succ]
      exact Nat.pow_le_pow_right (by decide) hshift
    rw [← Nat.mul_assoc]
    exact Nat.mul_le_mul_right den hpow
  have hpos : 0 < 2 ^ e * den := Nat.mul_pos (Nat.two_pow_pos e) hden
  rw [Nat.mul_assoc] at hoverflow
  rw [hunits] at hlast heven
  generalize 2 ^ a.shift * den = step at *
  generalize 2 ^ e * den = half at *
  rcases Nat.lt_or_ge a.mantissa (2 ^ 53 - 1) with hlt | hge
  · have hsize : a.mantissa * step ≤ (2 ^ 53 - 2) * step := Nat.mul_le_mul_right step (by omega)
    omega
  · -- the largest mantissa is odd
    have heq : a.mantissa = 2 ^ 53 - 1 := by omega
    rw [heq] at hlast heven
    have hcontra := heven (by right; omega)
    omega

/-- What lies in the interval of a magnitude is rounded to it. -/
theorem nearest?_eq (hden : 0 < den) (h : a.InInterval num den) : nearest? num den = some a := by
  rcases Option.eq_none_or_eq_some (nearest? num den) with hnone | ⟨b, hb⟩
  · have hshift : a.shift ≤ 2044 + 1 := a.shift_le
    have hoverflow := (nearest?_eq_none_iff hden).1 hnone
    rw [overflowUnits] at hoverflow
    exact (h.not_le_of_shift_le hden hshift hoverflow).elim
  · rw [hb, (isNearest_of_nearest? hden hb).unique (h.isNearest hden)]

end InInterval

end Interval

/-! ### Decimal grids -/

section Grid

variable {a : Magnitude} {c den f : Nat} {e : Int}

/-- What the search checks of a point of a grid. -/
private theorem roundsFrom_iff : a.roundsFrom c den f = true ↔
    if a.mantissa % 2 = 0 then
      (4 * a.units - a.gapBelow) * f ≤ 4 * c * den ∧ 4 * c * den ≤ (4 * a.units + 2 * 2 ^ a.shift) * f
    else (4 * a.units - a.gapBelow) * f < 4 * c * den ∧ 4 * c * den < (4 * a.units + 2 * 2 ^ a.shift) * f := by
  simp only [roundsFrom, gapBelow]
  split <;> simp

private theorem InInterval.of_roundsFrom (h : a.roundsFrom c den f = true) : a.InInterval (c * den) f := by
  rw [roundsFrom_iff, Nat.sub_mul, Nat.add_mul, Nat.mul_assoc, Nat.mul_assoc, Nat.mul_assoc] at h
  split at h
  · rename_i heven
    exact ⟨by omega, by omega, fun _ => heven⟩
  · exact ⟨by omega, by omega, fun hend => by omega⟩

/-- What lies inside the interval is in it, whatever the mantissa is. -/
private theorem roundsFrom_of_lt (hfirst : 4 * (a.units * f) < 4 * (c * den) + a.gapBelow * f)
    (hlast : 4 * (c * den) < 4 * (a.units * f) + 2 * (2 ^ a.shift * f)) (hpos : 0 < c * den) :
    a.roundsFrom c den f = true := by
  rw [roundsFrom_iff, Nat.sub_mul, Nat.add_mul, Nat.mul_assoc, Nat.mul_assoc, Nat.mul_assoc]
  split <;> omega

/-- A grid with steps of less than a unit of the last place, and less than three quarters of it at a power of two, has a
neighbour of the magnitude in its interval. -/
private theorem roundsFrom_neighbour (hden : 0 < den) (hpos : 0 < a.units) (hstep : den < 2 ^ a.shift * f)
    (hboundary : a.gapBelow = 2 ^ a.shift → 4 * den < 3 * (2 ^ a.shift * f)) :
    a.roundsFrom (a.units * f / den) den f = true ∨ a.roundsFrom (a.units * f / den + 1) den f = true := by
  have hgap : a.gapBelow = 2 ^ a.shift ∨ a.gapBelow = 2 * 2 ^ a.shift := by
    rw [gapBelow]
    split <;> simp
  have hunits : 2 ^ a.shift * f ≤ a.units * f := by
    have hmantissa : a.mantissa ≠ 0 := mt a.units_eq_zero_iff.2 (by omega)
    exact Nat.mul_le_mul_right f (Nat.le_mul_of_pos_left _ (Nat.pos_of_ne_zero hmantissa))
  have hsplit := Nat.div_add_mod' (a.units * f) den
  have hlt := Nat.mod_lt (a.units * f) hden
  have hsucc : (a.units * f / den + 1) * den = a.units * f / den * den + den := Nat.succ_mul _ _
  rcases Nat.lt_or_ge (4 * (a.units * f % den)) (a.gapBelow * f) with hlow | hhigh
  · left
    refine roundsFrom_of_lt (by omega) (by omega) ?_
    rcases hgap with hgap | hgap <;> rw [hgap] at hlow <;> omega
  · right
    refine roundsFrom_of_lt ?_ ?_ ?_
    · omega
    · rcases hgap with hgap | hgap
      · have hquarters := hboundary hgap
        rw [hgap] at hhigh
        omega
      · rw [hgap, Nat.mul_assoc] at hhigh
        omega
    · omega

/-- The search of a grid gives a point in the interval. -/
private theorem roundsFrom_of_onGrid? (h : a.onGrid? e = some c) :
    a.roundsFrom c (unitsPerOne * 10 ^ e.toNat) (10 ^ (-e).toNat) = true := by
  simp only [onGrid?] at h
  split at h
  · rename_i hlow hhigh
    split at h
    · cases h
      exact hlow
    · split at h
      · cases h
        exact hhigh
      · cases h
        rcases Nat.mod_two_eq_zero_or_one (a.units * 10 ^ (-e).toNat / (unitsPerOne * 10 ^ e.toNat)) with hmod | hmod
        · rw [hmod]
          exact hlow
        · rw [hmod]
          exact hhigh
  · rename_i hlow _
    cases h
    exact hlow
  · rename_i _ hhigh
    cases h
    exact hhigh
  · cases h

/-- A grid with seventeen digits or more has a point in the interval. -/
private theorem exists_onGrid? (hpos : 0 < a.units)
    (hgrid : 10 ^ 16 * (unitsPerOne * 10 ^ e.toNat) ≤ a.units * 10 ^ (-e).toNat) : ∃ c, a.onGrid? e = some c := by
  have hden : 0 < unitsPerOne * 10 ^ e.toNat := Nat.mul_pos unitsPerOne_pos (Nat.pow_pos (by decide))
  have hf : 0 < 10 ^ (-e).toNat := Nat.pow_pos (by decide)
  have hneighbour : a.roundsFrom (a.units * 10 ^ (-e).toNat / (unitsPerOne * 10 ^ e.toNat))
        (unitsPerOne * 10 ^ e.toNat) (10 ^ (-e).toNat) = true ∨
      a.roundsFrom (a.units * 10 ^ (-e).toNat / (unitsPerOne * 10 ^ e.toNat) + 1)
        (unitsPerOne * 10 ^ e.toNat) (10 ^ (-e).toNat) = true := by
    have hsize : a.units * 10 ^ (-e).toNat = a.mantissa * (2 ^ a.shift * 10 ^ (-e).toNat) := Nat.mul_assoc _ _ _
    have hstep : 0 < 2 ^ a.shift * 10 ^ (-e).toNat := Nat.mul_pos (Nat.two_pow_pos _) hf
    refine roundsFrom_neighbour hden hpos ?_ fun hgap => ?_
    · -- a mantissa is less than `10 ^ 16`
      have hle : a.mantissa * (2 ^ a.shift * 10 ^ (-e).toNat) ≤ 2 ^ 53 * (2 ^ a.shift * 10 ^ (-e).toNat) :=
        Nat.mul_le_mul_right _ (Nat.le_of_lt a.mantissa_lt)
      omega
    · have hmantissa : a.mantissa = 2 ^ 52 := by
        have hshift := Nat.two_pow_pos a.shift
        rw [gapBelow] at hgap
        split at hgap
        · rename_i hboundary
          exact hboundary.1
        · omega
      rw [hmantissa] at hsize
      omega
  simp only [onGrid?]
  split
  · split
    · exact ⟨_, rfl⟩
    · split <;> exact ⟨_, rfl⟩
  · exact ⟨_, rfl⟩
  · exact ⟨_, rfl⟩
  · rename_i hlow hhigh
    rw [hlow, hhigh] at hneighbour
    exact absurd hneighbour (by decide)

end Grid

/-! ### Seventeen digits -/

/-- The first of the digits is not zero. -/
private theorem pow_length_digits_le {b n : Nat} (hb : 2 ≤ b) (hn : n ≠ 0) : b ^ ((digits b n).length - 1) ≤ n := by
  induction n using Nat.strongRecOn with
  | ind n ih =>
    rcases Nat.lt_or_ge n b with hlt | hge
    · rw [digits_of_lt hlt]
      exact Nat.pos_of_ne_zero hn
    · have hquot : n / b ≠ 0 := Nat.ne_of_gt (Nat.div_pos hge (by omega))
      have hlength : 0 < (digits b (n / b)).length := List.length_pos_iff.2 (digits_ne_nil b _)
      have hle := ih (n / b) (Nat.div_lt_self (by omega) hb) hquot
      rw [digits_of_le hb hge, List.length_append, List.length_singleton, Nat.add_sub_cancel]
      calc b ^ (digits b (n / b)).length
        _ = b ^ ((digits b (n / b)).length - 1) * b := by
          rw [← Nat.pow_succ, Nat.succ_eq_add_one, Nat.sub_add_cancel hlength]
        _ ≤ n / b * b := Nat.mul_le_mul_right b hle
        _ ≤ n := Nat.div_mul_le_self n b

section Shortest

variable {a : Magnitude}

/-- With seventeen digits the last one stands at a place that is at most `10 ^ -16` of the magnitude. -/
private theorem pow_pointPosition_le (hpos : 0 < a.units) {e : Int} (he : e = a.pointPosition - 17) :
    10 ^ 16 * (unitsPerOne * 10 ^ e.toNat) ≤ a.units * 10 ^ (-e).toNat := by
  rw [pointPosition] at he
  have hscaled : unitsPerOne ≤ a.units * 10 ^ 330 :=
    Nat.le_trans (Nat.le_of_lt (unitsPerOne_lt (by decide))) (Nat.le_mul_of_pos_left _ hpos)
  have hquot : a.units * 10 ^ 330 / unitsPerOne ≠ 0 := Nat.ne_of_gt (Nat.div_pos hscaled unitsPerOne_pos)
  have hlength := List.length_pos_iff.2 (digits_ne_nil 10 (a.units * 10 ^ 330 / unitsPerOne))
  have hle := pow_length_digits_le (b := 10) (by decide) hquot
  have hscale := (Nat.le_div_iff_mul_le unitsPerOne_pos).1 hle
  generalize (digits 10 (a.units * 10 ^ 330 / unitsPerOne)).length = length at *
  -- both sides have the factor `10 ^ 330`
  have hpow : 10 ^ 16 * 10 ^ e.toNat * 10 ^ 330 = 10 ^ (length - 1) * 10 ^ (-e).toNat := by
    rw [← Nat.pow_add, ← Nat.pow_add, ← Nat.pow_add]
    congr 1
    omega
  have hten : ∀ m, 0 < 10 ^ m := fun m => Nat.pow_pos (by decide)
  refine Nat.le_of_mul_le_mul_right ?_ (hten 330)
  calc 10 ^ 16 * (unitsPerOne * 10 ^ e.toNat) * 10 ^ 330
    _ = unitsPerOne * (10 ^ 16 * 10 ^ e.toNat * 10 ^ 330) := by rw [Nat.mul_left_comm, Nat.mul_assoc]
    _ = 10 ^ (length - 1) * unitsPerOne * 10 ^ (-e).toNat := by rw [hpow, ← Nat.mul_assoc, Nat.mul_comm unitsPerOne]
    _ ≤ a.units * 10 ^ 330 * 10 ^ (-e).toNat := Nat.mul_le_mul_right _ hscale
    _ = a.units * 10 ^ (-e).toNat * 10 ^ 330 := Nat.mul_right_comm _ _ _

/-- The search ends with a point of some grid. -/
private theorem onGrid?_shortest (hpos : 0 < a.units) : a.onGrid? a.shortest.2 = some a.shortest.1 := by
  rw [shortest]
  generalize hsearch : (List.range 17).findSome? (fun n : Nat =>
    (a.onGrid? (a.pointPosition - (n + 1))).map fun c => (c, a.pointPosition - (n + 1))) = hit
  cases hit with
  | none =>
    have hlast := List.findSome?_eq_none_iff.1 hsearch 16 (by decide)
    obtain ⟨c, hc⟩ := exists_onGrid? hpos (pow_pointPosition_le hpos rfl)
    rw [show a.pointPosition - ((16 : Nat) + 1) = a.pointPosition - 17 from rfl, hc] at hlast
    cases hlast
  | some hit =>
    obtain ⟨n, -, hn⟩ := List.exists_of_findSome?_eq_some hsearch
    obtain ⟨c, hc, rfl⟩ := Option.map_eq_some_iff.1 hn
    exact hc

/-- The shortest decimal is read back as the magnitude. -/
theorem ofRatio_shortest (hpos : 0 < a.units) (s : Bool) :
    Double.ofRatio s (a.shortest.1 * 10 ^ a.shortest.2.toNat) (10 ^ (-a.shortest.2).toNat) = .finite s a := by
  have hround := roundsFrom_of_onGrid? (onGrid?_shortest hpos)
  have hnearest := (InInterval.of_roundsFrom hround).nearest?_eq (Nat.pow_pos (by decide))
  rw [Nat.mul_comm unitsPerOne, ← Nat.mul_assoc] at hnearest
  exact Double.ofRatio_eq hnearest s

end Shortest

end Magnitude

end DeskCalc
