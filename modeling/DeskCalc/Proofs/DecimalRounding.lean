import Mathlib.Data.Nat.Dist
import DeskCalc.Decimal.Places
import DeskCalc.Proofs.NearestDouble

/-!
# Rounding to decimal places twice

Rounding a double to decimal places goes through a whole number of units of the last place, `Magnitude.atPlaces`, and
the double nearest to it.  That double is rounded to the same whole number again (`atPlaces_of_nearest?`): it is no
farther from it than the double at the beginning, and if both are exactly half a unit away, the whole number is even
and wins again.  So rounding is idempotent (`Double.roundTo_roundTo`), whatever the spacing of doubles is.

With so many places that a unit of the last place is less than the least double, nothing is lost at all
(`nearest?_atPlaces_of_lt`).
-/

namespace DeskCalc

namespace Magnitude

theorem unitsPerOne_pos : 0 < unitsPerOne := by
  decide +kernel

/-- From the 324th decimal place on a unit of the last place is less than the least positive double. -/
theorem unitsPerOne_lt {places : Nat} (h : 324 ≤ places) : unitsPerOne < 10 ^ places := by
  have hmono : ∀ least, least ≤ places → 10 ^ least ≤ 10 ^ places := fun _ => Nat.pow_le_pow_right (by decide)
  refine Nat.lt_of_lt_of_le ?_ (hmono 324 h)
  decide +kernel

section AtPlaces

variable (a : Magnitude) (places : Nat)

/-- The whole number is at most half a unit away, and even if it is exactly half a unit away. -/
private theorem two_mul_dist_atPlaces :
    2 * Nat.dist (a.atPlaces places * unitsPerOne) (a.units * 10 ^ places) ≤ unitsPerOne ∧
      (2 * Nat.dist (a.atPlaces places * unitsPerOne) (a.units * 10 ^ places) = unitsPerOne →
        a.atPlaces places % 2 = 0) := by
  rw [Nat.dist_comm]
  exact two_mul_dist_roundDiv unitsPerOne_pos

private theorem exists_nearest?_atPlaces : ∃ b, nearest? (a.atPlaces places * unitsPerOne) (10 ^ places) = some b := by
  have hten : 0 < 10 ^ places := Nat.pow_pos (by decide)
  refine exists_nearest? hten ?_
  have hround := (a.two_mul_dist_atPlaces places).1
  have hunit : unitsPerOne ≤ unitsPerOne * 10 ^ places := Nat.le_mul_of_pos_right _ hten
  rw [Nat.dist] at hround
  calc a.atPlaces places * unitsPerOne
    _ ≤ a.units * 10 ^ places + unitsPerOne * 10 ^ places := by omega
    _ = (a.units + unitsPerOne) * 10 ^ places := (Nat.add_mul _ _ _).symm
    _ < overflowUnits * 10 ^ places := Nat.mul_lt_mul_of_pos_right a.units_add_lt hten

end AtPlaces

/-- The nearest double to the rounded number is rounded to the same number. -/
theorem atPlaces_of_nearest? {a b : Magnitude} {places : Nat}
    (h : nearest? (a.atPlaces places * unitsPerOne) (10 ^ places) = some b) : b.atPlaces places = a.atPlaces places := by
  have hnear := dist_nearest?_le (Nat.pow_pos (by decide)) h a
  obtain ⟨hround, htie⟩ := a.two_mul_dist_atPlaces places
  refine roundDiv_eq unitsPerOne_pos ?_ fun hb => ?_
  · rw [Nat.dist_comm]
    omega
  · rw [Nat.dist_comm] at hb
    exact htie (by omega)

/-- With a last place below the least double the rounded number determines the double. -/
theorem nearest?_atPlaces_of_lt {places : Nat} (h : unitsPerOne < 10 ^ places) (a : Magnitude) :
    nearest? (a.atPlaces places * unitsPerOne) (10 ^ places) = some a := by
  obtain ⟨b, hb⟩ := a.exists_nearest?_atPlaces places
  have hnear := dist_nearest?_le (Nat.pow_pos (by decide)) hb a
  have hround := (a.two_mul_dist_atPlaces places).1
  have htriangle := Nat.dist.triangle_inequality (b.units * 10 ^ places) (a.atPlaces places * unitsPerOne)
    (a.units * 10 ^ places)
  rw [Nat.dist_comm (b.units * 10 ^ places) (a.atPlaces places * unitsPerOne)] at htriangle
  have hunits : b.units = a.units := by
    by_contra hne
    have hapart := le_dist_mul hne (10 ^ places)
    omega
  rw [hb, eq_of_units_eq hunits]

private theorem atPlaces_zero (places : Nat) : zero.atPlaces places = 0 := by
  simp [atPlaces, units_zero, roundDiv, unitsPerOne_pos]

end Magnitude

namespace Double

open Magnitude (unitsPerOne)

variable {places : Nat}

theorem roundTo_of_lt (h : 323 < places) (s : Bool) (a : Magnitude) : roundTo places (finite s a) = finite s a := by
  rw [roundTo, if_pos h]

theorem roundTo_of_le (h : places ≤ 323) (s : Bool) (a : Magnitude) :
    roundTo places (finite s a) = ofRatio s (a.atPlaces places) (10 ^ places) := by
  rw [roundTo, if_neg (Nat.not_lt.2 h)]

theorem ofUnits_eq {num den : Nat} {b : Magnitude} (h : Magnitude.nearest? num den = some b) (s : Bool) :
    ofUnits s num den = finite s b := by
  unfold ofUnits
  rw [h]

theorem ofUnits_eq_infinite {num den : Nat} (h : Magnitude.nearest? num den = none) (s : Bool) :
    ofUnits s num den = infinite s := by
  unfold ofUnits
  rw [h]

theorem ofRatio_eq {num den : Nat} {b : Magnitude} (h : Magnitude.nearest? (num * unitsPerOne) den = some b) (s : Bool) :
    ofRatio s num den = finite s b :=
  ofUnits_eq h s

/-- A finite number is rounded to a finite number, which is rounded to itself. -/
theorem exists_roundTo (places : Nat) (s : Bool) (a : Magnitude) :
    ∃ b, roundTo places (finite s a) = finite s b ∧ roundTo places (finite s b) = finite s b := by
  rcases Nat.lt_or_ge 323 places with hlarge | hsmall
  · exact ⟨a, roundTo_of_lt hlarge s a, roundTo_of_lt hlarge s a⟩
  · obtain ⟨b, hb⟩ := a.exists_nearest?_atPlaces places
    refine ⟨b, ?_, ?_⟩
    · rw [roundTo_of_le hsmall, ofRatio_eq hb]
    · rw [roundTo_of_le hsmall, Magnitude.atPlaces_of_nearest? hb, ofRatio_eq hb]

/-- Rounding a second time changes nothing. -/
theorem roundTo_roundTo (places : Nat) (x : Double) : roundTo places (roundTo places x) = roundTo places x := by
  cases x with
  | nan => rfl
  | infinite s => rfl
  | finite s a =>
    obtain ⟨b, ha, hb⟩ := exists_roundTo places s a
    rw [ha, hb]

/-- The double nearest to a number written with decimal places is rounded as the number itself.  From the 324th place
on it is the number itself, so the places beyond the last one that is written do not matter. -/
theorem exists_nearest?_written (places : Nat) (a : Magnitude) :
    ∃ b, Magnitude.nearest? (a.atPlaces (Nat.min places 1074) * unitsPerOne) (10 ^ Nat.min places 1074) = some b ∧
      ∀ s, roundTo places (finite s b) = roundTo places (finite s a) := by
  rcases Nat.lt_or_ge 323 places with hlarge | hsmall
  · have hlt : unitsPerOne < 10 ^ Nat.min places 1074 :=
      Magnitude.unitsPerOne_lt (Nat.le_min.2 ⟨hlarge, by decide⟩)
    exact ⟨a, Magnitude.nearest?_atPlaces_of_lt hlt a, fun _ => rfl⟩
  · have heq : Nat.min places 1074 = places := Nat.min_eq_left (by omega)
    rw [heq]
    obtain ⟨b, hb⟩ := a.exists_nearest?_atPlaces places
    refine ⟨b, hb, fun s => ?_⟩
    rw [roundTo_of_le hsmall, roundTo_of_le hsmall, Magnitude.atPlaces_of_nearest? hb]

/-- Less than half of the least double is rounded to zero. -/
theorem ofRatio_of_lt {num den : Nat} (h : 2 * (num * unitsPerOne) < den) (s : Bool) : ofRatio s num den = zero s :=
  ofRatio_eq (Magnitude.nearest?_of_two_mul_lt h) s

theorem ofRatio_zero {den : Nat} (hden : 0 < den) (s : Bool) : ofRatio s 0 den = zero s := by
  refine ofRatio_of_lt ?_ s
  rwa [Nat.zero_mul, Nat.mul_zero]

theorem roundTo_zero (places : Nat) (s : Bool) : roundTo places (zero s) = zero s := by
  rcases Nat.lt_or_ge 323 places with hlarge | hsmall
  · exact roundTo_of_lt hlarge s _
  · rw [zero, roundTo_of_le hsmall, Magnitude.atPlaces_zero, ofRatio_zero (Nat.pow_pos (by decide))]
    rfl

end Double

end DeskCalc
