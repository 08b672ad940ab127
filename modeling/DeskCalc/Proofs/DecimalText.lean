import Mathlib.Algebra.Group.Defs
import Mathlib.Data.List.Induction
import DeskCalc.Numeral
import DeskCalc.Proofs.DecimalRounding
import DeskCalc.Proofs.Literal

/-!
# Decimal numerals are read back

The numeral of a magnitude with decimal places is a literal (`Magnitude.exists_literal_trimmed`), and its value is the
double nearest to the rounded number: the zeros that are left out at the end change neither the number nor the double
(`Double.ofRatio_mul_right`), and the limits that spare large powers of ten lie beyond all doubles
(`Double.ofDecimal_neg`).
-/

namespace DeskCalc

/-! ### Digits -/

theorem digits_lt {b : Nat} (hb : 2 ≤ b) (n : Nat) : ∀ d ∈ digits b n, d < b := by
  induction n using Nat.strongRecOn with
  | ind n ih =>
    intro d hd
    rcases Nat.lt_or_ge n b with hlt | hge
    · rw [digits_of_lt hlt, List.mem_singleton] at hd
      omega
    · rw [digits_of_le hb hge, List.mem_append, List.mem_singleton] at hd
      rcases hd with hd | rfl
      · exact ih (n / b) (Nat.div_lt_self (by omega) hb) d hd
      · exact Nat.mod_lt n (by omega)

theorem digitsVal_digits {b : Nat} (hb : 2 ≤ b) (n : Nat) : digitsVal b (digits b n) = n := by
  induction n using Nat.strongRecOn with
  | ind n ih =>
    rcases Nat.lt_or_ge n b with hlt | hge
    · rw [digits_of_lt hlt]
      simp [digitsVal]
    · rw [digits_of_le hb hge, digitsVal_append, ih (n / b) (Nat.div_lt_self (by omega) hb), Nat.div_add_mod']

/-- Only zero has a numeral that begins with a zero. -/
theorem head?_digits {b : Nat} (hb : 2 ≤ b) {n : Nat} (hn : n ≠ 0) :
    ∃ d, (digits b n).head? = some d ∧ 0 < d ∧ d < b := by
  induction n using Nat.strongRecOn with
  | ind n ih =>
    rcases Nat.lt_or_ge n b with hlt | hge
    · rw [digits_of_lt hlt]
      exact ⟨n, rfl, Nat.pos_of_ne_zero hn, hlt⟩
    · have hquot : n / b ≠ 0 := Nat.ne_of_gt (Nat.div_pos hge (by omega))
      obtain ⟨d, hd, hpos, hltb⟩ := ih (n / b) (Nat.div_lt_self (by omega) hb) hquot
      rw [digits_of_le hb hge, List.head?_append, hd]
      exact ⟨d, rfl, hpos, hltb⟩

theorem length_digits_le {b : Nat} (hb : 2 ≤ b) {places n : Nat} (hplaces : 0 < places) (h : n < b ^ places) :
    (digits b n).length ≤ places := by
  induction places generalizing n with
  | zero => exact absurd hplaces (Nat.lt_irrefl 0)
  | succ places ih =>
    rcases Nat.lt_or_ge n b with hlt | hge
    · rw [digits_of_lt hlt]
      exact hplaces
    · have hquot : n / b < b ^ places := by
        rw [Nat.pow_succ] at h
        exact (Nat.div_lt_iff_lt_mul (by omega)).2 h
      have hpos : 0 < places := by
        refine Nat.pos_of_ne_zero ?_
        rintro rfl
        have hone : 1 ≤ n / b := (Nat.le_div_iff_mul_le (by omega)).2 (by omega)
        rw [Nat.pow_zero] at hquot
        omega
      have hlength := ih hpos hquot
      rw [digits_of_le hb hge, List.length_append, List.length_singleton]
      omega

private theorem digitChar_spec {d : Nat} (h : d < 10) :
    isAsciiDigit (digitChar d) = true ∧ asciiDigitVal (digitChar d) = d := by
  have hall : ∀ d : Fin 10, isAsciiDigit (digitChar d) = true ∧ asciiDigitVal (digitChar d) = d := by decide
  exact hall ⟨d, h⟩

theorem isAsciiDigit_of_mem_numeral {n : Nat} {c : Char} (h : c ∈ numeral 10 n) : isAsciiDigit c = true := by
  obtain ⟨d, hd, rfl⟩ := List.mem_map.1 h
  exact (digitChar_spec (digits_lt (by decide) n d hd)).1

theorem digitsNat_numeral (n : Nat) : digitsNat (numeral 10 n) = n := by
  have hmap : (numeral 10 n).map asciiDigitVal = digits 10 n := by
    rw [numeral, List.map_map]
    refine (List.map_congr_left fun d hd => ?_).trans (List.map_id _)
    exact (digitChar_spec (digits_lt (by decide) n d hd)).2
  rw [digitsNat, hmap, digitsVal_digits (by decide)]

theorem digitsNat_append (cs ds : List Char) :
    digitsNat (cs ++ ds) = digitsNat cs * 10 ^ ds.length + digitsNat ds := by
  induction ds using List.reverseRecOn with
  | nil => simp [digitsNat, digitsVal]
  | append_singleton ds d ih =>
    have hlast : ∀ es : List Char, digitsNat (es ++ [d]) = digitsNat es * 10 + asciiDigitVal d := by
      intro es
      rw [digitsNat, List.map_append]
      exact digitsVal_append 10 _ _
    rw [← List.append_assoc, hlast, hlast, ih, List.length_append, List.length_singleton, Nat.pow_succ, Nat.add_mul,
      Nat.mul_assoc, Nat.add_assoc]

theorem digitsNat_replicate_zero (m : Nat) : digitsNat (List.replicate m '0') = 0 := by
  induction m with
  | zero => rfl
  | succ m ih =>
    rw [List.replicate_succ', digitsNat_append, ih]
    rfl

/-- Zeros at the end are split off. -/
theorem exists_append_zeros (ds : List Char) :
    ∃ m, ds = (ds.reverse.dropWhile (· == '0')).reverse ++ List.replicate m '0' := by
  have hsplit := List.takeWhile_append_dropWhile (p := (· == '0')) (l := ds.reverse)
  have hzeros : ds.reverse.takeWhile (· == '0') = List.replicate (ds.reverse.takeWhile (· == '0')).length '0' := by
    refine List.eq_replicate_of_mem fun c hc => ?_
    simpa using List.mem_takeWhile_imp hc
  refine ⟨(ds.reverse.takeWhile (· == '0')).length, ?_⟩
  have hreverse := congrArg List.reverse hsplit
  rw [List.reverse_append, List.reverse_reverse, hzeros, List.reverse_replicate] at hreverse
  exact hreverse.symm

/-! ### The numeral of a magnitude -/

namespace Magnitude

section Trimmed

variable (a : Magnitude) (places : Nat)

private theorem length_fraction : (a.fraction places).length = places := by
  rw [fraction]
  split
  · rename_i hzero
    rw [hzero, List.length_nil]
  · rename_i hpos
    have hle : (numeral 10 (a.atPlaces places % 10 ^ places)).length ≤ places := by
      rw [numeral, List.length_map]
      exact length_digits_le (by decide) (Nat.pos_of_ne_zero hpos) (Nat.mod_lt _ (Nat.pow_pos (by decide)))
    rw [List.length_leftpad]
    omega

private theorem digitsNat_fraction : digitsNat (a.fraction places) = a.atPlaces places % 10 ^ places := by
  rw [fraction]
  split
  · rename_i hzero
    rw [hzero, Nat.pow_zero, Nat.mod_one]
    rfl
  · rw [List.leftpad, digitsNat_append, digitsNat_replicate_zero, digitsNat_numeral, Nat.zero_mul, Nat.zero_add]

/-- The digits before and after the point are those of the rounded number. -/
theorem digitsNat_integral_append : digitsNat (a.integral places ++ a.fraction places) = a.atPlaces places := by
  rw [digitsNat_append, digitsNat_fraction, length_fraction, integral, digitsNat_numeral, Nat.div_add_mod']

theorem isAsciiDigit_of_mem_integral {c : Char} (h : c ∈ a.integral places) : isAsciiDigit c = true :=
  isAsciiDigit_of_mem_numeral h

theorem isAsciiDigit_of_mem_fraction {c : Char} (h : c ∈ a.fraction places) : isAsciiDigit c = true := by
  rw [fraction] at h
  split at h
  · cases h
  · rw [List.leftpad, List.mem_append] at h
    rcases h with h | h
    · rw [List.eq_of_mem_replicate h]
      rfl
    · exact isAsciiDigit_of_mem_numeral h

theorem integral_ne_nil : a.integral places ≠ [] :=
  numeral_ne_nil 10 _

/-- The numeral consists of the digits before the point and, after the point, of those that are not zeros at the
end. -/
theorem trimmed_eq : ∃ ds m, a.fraction (Nat.min places 1074) = ds ++ List.replicate m '0' ∧
    a.trimmed places = a.integral (Nat.min places 1074) ++ if ds = [] then [] else '.' :: ds := by
  obtain ⟨m, hm⟩ := exists_append_zeros (a.fraction (Nat.min places 1074))
  refine ⟨_, m, hm, ?_⟩
  rw [trimmed]
  generalize ((a.fraction (Nat.min places 1074)).reverse.dropWhile (· == '0')).reverse = ds
  cases ds with
  | nil => exact (List.append_nil _).symm
  | cons d ds => rfl

end Trimmed

end Magnitude

/-! ### The number of places -/

section Places

variable {fix : Int}

theorem decimalPlaces_eq_ok (hfix : 0 ≤ fix) (hlt : fix.toNat < 2 ^ 31) : decimalPlaces fix = .ok fix.toNat := by
  have hlength : (numeral 10 fix.natAbs).length ≤ maxDigits := by
    have hten : (numeral 10 fix.natAbs).length ≤ 10 := by
      rw [numeral, List.length_map]
      exact length_digits_le (by decide) (by decide) (by omega)
    exact Nat.le_trans hten (by decide)
  have hform : Json.integerForm fix = .ok (if fix < 0 then '-' :: numeral 10 fix.natAbs else numeral 10 fix.natAbs) :=
    if_neg (Nat.not_lt.2 hlength)
  rw [decimalPlaces, hform]
  dsimp only
  rw [if_neg (by omega), if_neg (by omega), if_neg (by omega)]

private theorem exists_decimalPlaces_error (h : 2 ^ 31 ≤ fix.toNat) : ∃ d, decimalPlaces fix = .error d := by
  rw [decimalPlaces]
  split
  · exact ⟨_, rfl⟩
  · rw [if_neg (by omega)]
    split
    · exact ⟨.beyondCounting, rfl⟩
    · exact ⟨.beyondPrecision, rfl⟩

/-- A decimal numeral has less than `2 ^ 31` places. -/
theorem exists_plainNumeral_error (h : 2 ^ 31 ≤ fix.toNat) {x : Double} (hx : x.isFinite = true) :
    ∃ d, plainNumeral 10 fix x = .error (.places d) := by
  obtain ⟨d, hd⟩ := exists_decimalPlaces_error h
  refine ⟨d, ?_⟩
  cases x with
  | nan => cases hx
  | infinite s => cases hx
  | finite s a =>
    rw [plainNumeral, if_neg (by decide)]
    simp only [if_pos, hd]

end Places

/-! ### Literals from their digits -/

/-- Digits before and after a point are a literal.  The point is left out if no digits come after it. -/
def Literal.ofDigits (whole fraction : List Char) (ne_nil : whole ≠ []) (hwhole : ∀ c ∈ whole, isAsciiDigit c = true)
    (hfraction : ∀ c ∈ fraction, isAsciiDigit c = true) : Literal where
  text := whole ++ if fraction = [] then [] else '.' :: fraction
  ne_nil := List.append_ne_nil_of_left_ne_nil ne_nil _
  isLiteralChar_of_mem := by
    intro c hc
    rw [isLiteralChar]
    rcases List.mem_append.1 hc with hc | hc
    · rw [hwhole c hc, Bool.true_or]
    · split at hc
      · cases hc
      · rcases List.mem_cons.1 hc with rfl | hc
        · rfl
        · rw [hfraction c hc, Bool.true_or]
  count_point_le := by
    have hnone : ∀ ds : List Char, (∀ c ∈ ds, isAsciiDigit c = true) → ds.count '.' = 0 := by
      intro ds hds
      refine List.count_eq_zero.2 fun hmem => ?_
      exact Bool.false_ne_true (hds '.' hmem)
    rw [List.count_append, hnone whole hwhole]
    split
    · simp
    · rw [List.count_cons_self, hnone fraction hfraction]
  ne_point := by
    cases whole with
    | nil => exact absurd rfl ne_nil
    | cons c cs =>
      intro h
      have hc : c = '.' := (List.cons.inj h).1
      rw [hc] at hwhole
      exact Bool.false_ne_true (hwhole '.' List.mem_cons_self)

private theorem Literal.literalValue_ofDigits {whole fraction : List Char} (ne_nil : whole ≠ [])
    (hwhole : ∀ c ∈ whole, isAsciiDigit c = true) (hfraction : ∀ c ∈ fraction, isAsciiDigit c = true) :
    literalValue (Literal.ofDigits whole fraction ne_nil hwhole hfraction).text =
      Double.ofDecimal false (digitsNat (whole ++ fraction)) (-fraction.length) := by
  have htake : ∀ rest : List Char, rest.takeWhile isAsciiDigit = [] →
      (whole ++ rest).takeWhile isAsciiDigit = whole := by
    intro rest hrest
    rw [List.takeWhile_append_of_pos hwhole, hrest, List.append_nil]
  show literalValue (whole ++ if fraction = [] then [] else '.' :: fraction) = _
  cases fraction with
  | nil =>
    rw [if_pos rfl, literalValue, htake [] rfl, List.dropWhile_append_of_pos hwhole]
    rfl
  | cons d ds =>
    rw [if_neg (List.cons_ne_nil d ds), literalValue, htake ('.' :: d :: ds) rfl, List.dropWhile_append_of_pos hwhole]
    rfl

/-! ### The value of a numeral -/

namespace Double

open Magnitude (unitsPerOne)

variable {s : Bool}

/-- Numerator and denominator may be multiplied by the same number. -/
theorem ofRatio_mul_right {c : Nat} (hc : 0 < c) (num den : Nat) : ofRatio s (num * c) (den * c) = ofRatio s num den := by
  have hunits : ∀ n, ofUnits s (n * c) (den * c) = ofUnits s n den := by
    intro n
    unfold ofUnits
    rw [Magnitude.nearest?_mul_right hc]
  unfold ofRatio
  rw [Nat.mul_right_comm]
  exact hunits _

/-- Digits that are read as zero, with so many places after the point, denote less than half of the least double. -/
private theorem two_mul_lt_of_log2_lt {digits places : Nat} (h : digits.log2 + 400 < places) :
    2 * (digits * unitsPerOne) < 10 ^ places := by
  obtain ⟨more, rfl⟩ := Nat.exists_eq_add_of_le (show digits.log2 + 1 ≤ places by omega)
  have hdigits : 2 * digits < 10 ^ (digits.log2 + 1) := by
    have hlog : digits < 2 ^ (digits.log2 + 1) := Nat.lt_log2_self
    have hpow : 2 * 2 ^ (digits.log2 + 1) ≤ 10 ^ (digits.log2 + 1) := by
      calc 2 * 2 ^ (digits.log2 + 1)
        _ = 2 ^ (digits.log2 + 2) := by rw [Nat.pow_succ 2 (digits.log2 + 1), Nat.mul_comm]
        _ ≤ 2 ^ (2 * (digits.log2 + 1)) := Nat.pow_le_pow_right (by decide) (by omega)
        _ = 4 ^ (digits.log2 + 1) := Nat.pow_mul 2 2 (digits.log2 + 1)
        _ ≤ 10 ^ (digits.log2 + 1) := Nat.pow_le_pow_left (by decide) _
    omega
  have hunits : unitsPerOne < 10 ^ more := Magnitude.unitsPerOne_lt (by omega)
  rw [← Nat.mul_assoc, Nat.pow_add]
  exact Nat.mul_lt_mul'' hdigits hunits

/-- The limit below which a decimal is read as zero lies below the least double. -/
theorem ofDecimal_neg (digits places : Nat) :
    ofDecimal s digits (-(places : Int)) = ofRatio s digits (10 ^ places) := by
  have hten : 0 < 10 ^ places := Nat.pow_pos (by decide)
  rw [ofDecimal]
  split
  · rename_i hzero
    rw [hzero, ofRatio_zero hten]
  · rename_i hdigits
    rw [if_neg (by omega)]
    split
    · rename_i hsmall
      exact (ofRatio_of_lt (two_mul_lt_of_log2_lt (by omega)) s).symm
    · rw [Int.neg_neg, Int.toNat_natCast, Int.toNat_eq_zero.2 (by omega), Nat.pow_zero, Nat.mul_one]

end Double

namespace Magnitude

/-- The numeral of a magnitude is a literal, and its value is the double nearest to the rounded number. -/
theorem exists_literal_trimmed (places : Nat) (a : Magnitude) :
    ∃ l : Literal, l.text = a.trimmed places ∧ literalValue l.text =
      Double.ofRatio false (a.atPlaces (Nat.min places 1074)) (10 ^ Nat.min places 1074) := by
  obtain ⟨ds, m, hfraction, htext⟩ := a.trimmed_eq places
  generalize Nat.min places 1074 = written at *
  have hds : ∀ c ∈ ds, isAsciiDigit c = true := fun c hc =>
    a.isAsciiDigit_of_mem_fraction written (by rw [hfraction]; exact List.mem_append_left _ hc)
  have hwhole : ∀ c ∈ a.integral written, isAsciiDigit c = true := fun _ hc => a.isAsciiDigit_of_mem_integral written hc
  refine ⟨.ofDigits (a.integral written) ds (a.integral_ne_nil written) hwhole hds, htext.symm, ?_⟩
  -- the digits with the zeros that were left out are those of the rounded number
  have hdigits : digitsNat (a.integral written ++ ds) * 10 ^ m = a.atPlaces written := by
    rw [← digitsNat_integral_append, hfraction, ← List.append_assoc, digitsNat_append _ (List.replicate m '0'),
      digitsNat_replicate_zero, List.length_replicate, Nat.add_zero]
  have hplaces : 10 ^ ds.length * 10 ^ m = 10 ^ written := by
    rw [← Nat.pow_add]
    congr 1
    have hlength := a.length_fraction written
    rw [hfraction, List.length_append, List.length_replicate] at hlength
    exact hlength
  rw [Literal.literalValue_ofDigits, Double.ofDecimal_neg, ← hdigits, ← hplaces,
    Double.ofRatio_mul_right (Nat.pow_pos (by decide))]

end Magnitude

end DeskCalc
