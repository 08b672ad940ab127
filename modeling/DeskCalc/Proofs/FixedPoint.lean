import Mathlib.Data.List.DropRight
import DeskCalc.Proofs.DecimalText

/-!
# Numerals with a fixed number of places

A magnitude can be written with exactly so many decimal places as are wanted (`Magnitude.fixedPoint`).  If the zeros
at the end are then left out, and the point if nothing comes after it, this is the short numeral
(`Magnitude.stripped_fixedPoint`), which never looks beyond the 1074th place: all digits after that one are zeros
(`Magnitude.fraction_add`).
-/

namespace DeskCalc

/-- A numeral without the zeros at the end of its fraction and without a point at its end. -/
def stripped (s : List Char) : List Char :=
  if '.' ∈ s then (s.rdropWhile (· == '0')).rdropWhile (· == '.') else s

/-- Characters are only taken off the last part as long as something of it is left. -/
private theorem rdropWhile_append_cons {p : Char → Bool} {c : Char} (hc : p c = false) (s t : List Char) :
    (s ++ c :: t).rdropWhile p = s ++ c :: t.rdropWhile p := by
  induction t using List.reverseRecOn with
  | nil => rw [List.rdropWhile_concat_neg _ _ _ (by simp [hc]), List.rdropWhile_nil]
  | append_singleton t d ih =>
    rw [← List.cons_append, ← List.append_assoc, List.rdropWhile_concat, List.rdropWhile_concat]
    split
    · exact ih
    · rw [List.append_assoc, List.cons_append]

private theorem rdropWhile_append_replicate {p : Char → Bool} {c : Char} (hc : p c = true) (s : List Char) (k : Nat) :
    (s ++ List.replicate k c).rdropWhile p = s.rdropWhile p := by
  induction k with
  | zero => rw [List.replicate_zero, List.append_nil]
  | succ k ih => rw [List.replicate_succ', ← List.append_assoc, List.rdropWhile_concat_pos _ _ _ hc, ih]

private theorem rdropWhile_eq_self {p : Char → Bool} {s : List Char} (h : ∀ c ∈ s, p c = false) :
    s.rdropWhile p = s := by
  rw [List.rdropWhile_eq_self_iff]
  intro hne
  rw [h _ (List.getLast_mem hne)]
  exact Bool.false_ne_true

private theorem ne_point_of_isAsciiDigit {c : Char} (h : isAsciiDigit c = true) : c ≠ '.' := by
  rintro rfl
  exact Bool.false_ne_true h

/-- The zeros and the point that are left out. -/
private theorem stripped_append {whole fraction : List Char} (hwhole : ∀ c ∈ whole, c ≠ '.')
    (hfraction : ∀ c ∈ fraction, c ≠ '.') :
    stripped (whole ++ '.' :: fraction) =
      if fraction.rdropWhile (· == '0') = [] then whole else whole ++ '.' :: fraction.rdropWhile (· == '0') := by
  rw [stripped, if_pos (List.mem_append_right _ List.mem_cons_self), rdropWhile_append_cons rfl]
  have hkept : ∀ c ∈ fraction.rdropWhile (· == '0'), c ≠ '.' := fun c hc =>
    hfraction c ((List.rdropWhile_prefix _ fraction).subset hc)
  generalize fraction.rdropWhile (· == '0') = ds at *
  induction ds using List.reverseRecOn with
  | nil =>
    rw [if_pos rfl, List.rdropWhile_concat_pos _ _ _ rfl]
    exact rdropWhile_eq_self fun c hc => beq_eq_false_iff_ne.2 (hwhole c hc)
  | append_singleton ds d =>
    have hd : ¬(d == '.') = true := by simpa using hkept d (List.mem_append_right _ (List.mem_singleton_self d))
    rw [if_neg (List.append_ne_nil_of_right_ne_nil _ (List.cons_ne_nil _ _)), ← List.cons_append,
      ← List.append_assoc, List.rdropWhile_concat_neg (· == '.') _ d hd]

/-! ### Zeros after the last place -/

private theorem digits_mul_pow {b : Nat} (hb : 2 ≤ b) {n : Nat} (hn : 0 < n) (k : Nat) :
    digits b (n * b ^ k) = digits b n ++ List.replicate k 0 := by
  induction k with
  | zero => rw [Nat.pow_zero, Nat.mul_one, List.replicate_zero, List.append_nil]
  | succ k ih =>
    have hpos : 0 < n * b ^ k := Nat.mul_pos hn (Nat.pow_pos (by omega))
    rw [Nat.pow_succ, ← Nat.mul_assoc, digits_of_le hb (Nat.le_mul_of_pos_left b hpos),
      Nat.mul_div_cancel _ (by omega), Nat.mul_mod_left, ih, List.append_assoc, ← List.replicate_succ']

/-- A numeral with zeros before it, up to a number of characters, and with zeros after it. -/
private theorem leftpad_numeral_mul_pow {width : Nat} (hwidth : 0 < width) (n k : Nat) :
    (numeral 10 (n * 10 ^ k)).leftpad (width + k) '0' =
      (numeral 10 n).leftpad width '0' ++ List.replicate k '0' := by
  rcases Nat.eq_zero_or_pos n with rfl | hn
  · have hzeros : ∀ w, 0 < w → (numeral 10 0).leftpad w '0' = List.replicate w '0' := by
      intro w hw
      have hnumeral : numeral 10 0 = List.replicate 1 '0' := by decide +kernel
      rw [hnumeral, List.leftpad, List.length_replicate, List.replicate_append_replicate, Nat.sub_add_cancel hw]
    rw [Nat.zero_mul, hzeros _ (by omega), hzeros _ hwidth, List.replicate_append_replicate]
  · have hnumeral : numeral 10 (n * 10 ^ k) = numeral 10 n ++ List.replicate k '0' := by
      rw [numeral, digits_mul_pow (by decide) hn, List.map_append, List.map_replicate]
      rfl
    rw [hnumeral, List.leftpad, List.leftpad, List.length_append, List.length_replicate, Nat.add_sub_add_right,
      List.append_assoc]

namespace Magnitude

variable (a : Magnitude)

/-- The magnitude with exactly `places` decimal places. -/
def fixedPoint (places : Nat) : List Char :=
  a.integral places ++ if places = 0 then [] else '.' :: a.fraction places

section Last

variable {last : Nat} (hlast : unitsPerOne ∣ 10 ^ last) (k : Nat)

include hlast

/-- If a unit can be written with so many places, nothing is rounded from there on. -/
private theorem atPlaces_add : a.atPlaces (last + k) = a.atPlaces last * 10 ^ k := by
  obtain ⟨c, hc⟩ := hlast
  have hexact : a.units * 10 ^ last = a.units * c * unitsPerOne := by
    rw [hc, Nat.mul_comm unitsPerOne, Nat.mul_assoc]
  rw [atPlaces, atPlaces, Nat.pow_add, ← Nat.mul_assoc, hexact, Nat.mul_right_comm,
    roundDiv_mul_self unitsPerOne_pos, roundDiv_mul_self unitsPerOne_pos]

private theorem integral_add : a.integral (last + k) = a.integral last := by
  rw [integral, integral, a.atPlaces_add hlast, Nat.pow_add, Nat.mul_div_mul_right _ _ (Nat.pow_pos (by decide))]

theorem fraction_add (hpos : 0 < last) : a.fraction (last + k) = a.fraction last ++ List.replicate k '0' := by
  rw [fraction, fraction, if_neg (by omega), if_neg (by omega), a.atPlaces_add hlast, Nat.pow_add,
    Nat.mul_mod_mul_right, leftpad_numeral_mul_pow hpos]

/-- The digits before the last place are all that there are. -/
private theorem fraction_min (hpos : 0 < last) (places : Nat) : a.integral (Nat.min places last) = a.integral places ∧
    (a.fraction (Nat.min places last)).rdropWhile (· == '0') = (a.fraction places).rdropWhile (· == '0') := by
  rcases Nat.le_total places last with hle | hge
  · rw [show Nat.min places last = places from Nat.min_eq_left hle]
    exact ⟨rfl, rfl⟩
  · obtain ⟨k, rfl⟩ := Nat.exists_eq_add_of_le hge
    rw [show Nat.min (last + k) last = last from Nat.min_eq_right hge, a.integral_add hlast,
      a.fraction_add hlast k hpos, rdropWhile_append_replicate rfl]
    exact ⟨rfl, rfl⟩

end Last

/-- After the point stand the digits of the numeral with exactly so many places, without the zeros at the end. -/
theorem trimmed_eq_append (places : Nat) : a.trimmed places = a.integral places ++
    if (a.fraction places).rdropWhile (· == '0') = [] then []
    else '.' :: (a.fraction places).rdropWhile (· == '0') := by
  obtain ⟨last, hunit, heq⟩ : ∃ last, unitsPerOne ∣ 10 ^ last ∧ last = 1074 := ⟨_, by decide +kernel, rfl⟩
  have hlast := a.fraction_min hunit (by omega) places
  rw [heq] at hlast
  rw [← hlast.1, ← hlast.2, List.rdropWhile, trimmed]
  generalize ((a.fraction (Nat.min places 1074)).reverse.dropWhile (· == '0')).reverse = ds
  cases ds with
  | nil => exact (List.append_nil _).symm
  | cons d ds => rfl

/-- Stripped of zeros and point the numeral with exactly so many places is the one with at most so many places. -/
theorem stripped_fixedPoint (places : Nat) : stripped (a.fixedPoint places) = a.trimmed places := by
  have hwhole : ∀ c ∈ a.integral places, c ≠ '.' := fun c hc =>
    ne_point_of_isAsciiDigit (a.isAsciiDigit_of_mem_integral places hc)
  have hfraction : ∀ c ∈ a.fraction places, c ≠ '.' := fun c hc =>
    ne_point_of_isAsciiDigit (a.isAsciiDigit_of_mem_fraction places hc)
  rw [trimmed_eq_append, fixedPoint]
  by_cases hzero : places = 0
  · subst hzero
    rw [if_pos rfl, List.append_nil, stripped, if_neg (fun h => hwhole _ h rfl)]
    exact (List.append_nil _).symm
  · rw [if_neg hzero, stripped_append hwhole hfraction]
    split
    · rw [List.append_nil]
    · rfl

end Magnitude

end DeskCalc
