import Mathlib.Algebra.Group.Defs
import DeskCalc.Proofs.DecimalText
import DeskCalc.Proofs.ShortestDecimal

/-!
# The text of a double is read back

A double is read as it was written (`Double.readDouble_text`).  The text of a positive magnitude has the shortest digits
that denote it, with a point among them, zeros around them or an exponent after them, and all of these forms are read as
the same double (`IsDecimal`).
-/

namespace DeskCalc

/-! ### Decimals -/

namespace Double

open Magnitude (unitsPerOne overflowUnits)

variable {s : Bool}

/-- Equal fractions have the same double. -/
private theorem ofRatio_congr {num den num' den' : Nat} (hden : 0 < den) (hden' : 0 < den')
    (h : num * den' = num' * den) : ofRatio s num den = ofRatio s num' den' := by
  calc ofRatio s num den
    _ = ofRatio s (num * den') (den * den') := (ofRatio_mul_right hden' num den).symm
    _ = ofRatio s (num' * den) (den' * den) := by rw [h, Nat.mul_comm den]
    _ = ofRatio s num' den' := ofRatio_mul_right hden num' den'

/-- The limit above which a decimal is read as infinity lies above the largest double. -/
private theorem ofDecimal_natCast (digits e : Nat) : ofDecimal s digits e = ofRatio s (digits * 10 ^ e) 1 := by
  rw [ofDecimal]
  split
  · rename_i hzero
    rw [hzero, Nat.zero_mul, ofRatio_zero (by decide)]
  · rename_i hdigits
    split
    · rename_i hlarge
      have hpow : ∀ least, least ≤ e → 10 ^ least ≤ 10 ^ e := fun _ => Nat.pow_le_pow_right (by decide)
      have hlimit : overflowUnits ≤ 10 ^ 400 * unitsPerOne := by decide +kernel
      have hoverflow : overflowUnits * 1 ≤ digits * 10 ^ e * unitsPerOne := by
        calc overflowUnits * 1
          _ ≤ 10 ^ 400 * unitsPerOne := by rw [Nat.mul_one]; exact hlimit
          _ ≤ digits * 10 ^ e * unitsPerOne :=
            Nat.mul_le_mul_right _ (Nat.le_trans (hpow 400 (by omega))
              (Nat.le_mul_of_pos_left _ (Nat.pos_of_ne_zero hdigits)))
      exact (ofUnits_eq_infinite ((Magnitude.nearest?_eq_none_iff (by decide)).2 hoverflow) s).symm
    · rw [if_neg (by omega), Int.toNat_natCast, Int.toNat_of_nonpos (by omega), Nat.pow_zero]

/-- A decimal is the double nearest to its digits times a power of ten. -/
private theorem ofDecimal_eq (digits : Nat) (e : Int) :
    ofDecimal s digits e = ofRatio s (digits * 10 ^ e.toNat) (10 ^ (-e).toNat) := by
  rcases Int.le_total 0 e with hpos | hneg
  · obtain ⟨n, rfl⟩ := Int.eq_ofNat_of_zero_le hpos
    rw [ofDecimal_natCast, Int.toNat_natCast, Int.toNat_of_nonpos (by omega), Nat.pow_zero]
  · obtain ⟨n, hn⟩ := Int.eq_ofNat_of_zero_le (show 0 ≤ -e by omega)
    obtain rfl : e = -(n : Int) := by omega
    rw [ofDecimal_neg, Int.neg_neg, Int.toNat_natCast, Int.toNat_of_nonpos (by omega), Nat.pow_zero, Nat.mul_one]

/-- Zeros after the digits are a power of ten. -/
private theorem ofDecimal_mul_pow (digits k : Nat) (e : Int) :
    ofDecimal s (digits * 10 ^ k) (e - k) = ofDecimal s digits e := by
  have hten : ∀ n, 0 < 10 ^ n := fun n => Nat.pow_pos (by decide)
  rw [ofDecimal_eq, ofDecimal_eq]
  refine ofRatio_congr (hten _) (hten _) ?_
  rw [Nat.mul_assoc, Nat.mul_assoc, Nat.mul_assoc, ← Nat.pow_add, ← Nat.pow_add, ← Nat.pow_add]
  congr 2
  omega

end Double

/-! ### The parts of a decimal -/

/-- The digits after the point with the point, or nothing. -/
def pointed (fraction : List Char) : List Char :=
  if fraction = [] then [] else '.' :: fraction

/-- A written exponent: nothing, or the letter, a sign and digits. -/
inductive IsExponent : List Char → Int → Prop
  | none : IsExponent [] 0
  | written (width : Nat) (e : Int) :
      IsExponent ('e' :: (if e < 0 then '-' else '+') :: (numeral 10 e.natAbs).leftpad width '0') e

/-- The text is a digit and what comes after it, and whatever the sign is, it is read as `digits * 10 ^ e`. -/
structure IsDecimal (digits : Nat) (e : Int) (text : List Char) : Prop where
  exists_digit : ∃ d rest, text = d :: rest ∧ isAsciiDigit d = true
  mem_decimalChars : ∀ c ∈ text, c ∈ decimalChars
  readDecimal_eq : ∀ s, readDecimal s text = some (.ofDecimal s digits e)

private theorem isAsciiDigit_of_mem_zeros {m : Nat} {c : Char} (h : c ∈ List.replicate m '0') :
    isAsciiDigit c = true := by
  rw [List.eq_of_mem_replicate h]
  rfl

private theorem isAsciiDigit_of_mem_leftpad {n width : Nat} {c : Char} (h : c ∈ (numeral 10 n).leftpad width '0') :
    isAsciiDigit c = true := by
  rw [List.leftpad, List.mem_append] at h
  exact h.elim isAsciiDigit_of_mem_zeros isAsciiDigit_of_mem_numeral

private theorem digitsNat_zeros_append (m : Nat) (ds : List Char) :
    digitsNat (List.replicate m '0' ++ ds) = digitsNat ds := by
  rw [digitsNat_append, digitsNat_replicate_zero, Nat.zero_mul, Nat.zero_add]

private theorem digitsNat_append_zeros (ds : List Char) (m : Nat) :
    digitsNat (ds ++ List.replicate m '0') = digitsNat ds * 10 ^ m := by
  rw [digitsNat_append, digitsNat_replicate_zero, List.length_replicate, Nat.add_zero]

private theorem digitsNat_leftpad (n width : Nat) : digitsNat ((numeral 10 n).leftpad width '0') = n := by
  rw [List.leftpad, digitsNat_zeros_append, digitsNat_numeral]

private theorem mem_decimalChars_of_isAsciiDigit {c : Char} (h : isAsciiDigit c = true) : c ∈ decimalChars :=
  List.mem_append_left _ (mem_literalChars (by rw [isLiteralChar, h, Bool.true_or]))

namespace IsExponent

variable {suffix : List Char} {e : Int}

private theorem mem_decimalChars (h : IsExponent suffix e) : ∀ c ∈ suffix, c ∈ decimalChars := by
  cases h with
  | none => exact nofun
  | written width =>
    intro c hc
    rcases List.mem_cons.1 hc with rfl | hc
    · decide
    rcases List.mem_cons.1 hc with rfl | hc
    · split <;> decide
    · exact mem_decimalChars_of_isAsciiDigit (isAsciiDigit_of_mem_leftpad hc)

private theorem readExponent_eq (h : IsExponent suffix e) : readExponent suffix = some e := by
  cases h with
  | none => rfl
  | written width =>
    have hempty : ((numeral 10 e.natAbs).leftpad width '0').isEmpty = false := by
      rw [List.leftpad, List.isEmpty_eq_false_iff]
      exact List.append_ne_nil_of_right_ne_nil _ (numeral_ne_nil 10 _)
    have hall : ((numeral 10 e.natAbs).leftpad width '0').all isAsciiDigit = true :=
      List.all_eq_true.2 fun c hc => isAsciiDigit_of_mem_leftpad hc
    have hvalue := digitsNat_leftpad e.natAbs width
    generalize (numeral 10 e.natAbs).leftpad width '0' = ds at *
    by_cases he : e < 0
    · simp only [readExponent, splitSign, hempty, hall, hvalue, he, if_true]
      exact congrArg some (show -(e.natAbs : Int) = e by omega)
    · simp only [readExponent, splitSign, hempty, hall, hvalue, he, if_false]
      exact congrArg some (show (e.natAbs : Int) = e by omega)

end IsExponent

namespace IsDecimal

variable {whole fraction suffix : List Char} {e : Int}

/-- Digits before and after a point with an exponent are a decimal. -/
private theorem of_parts (ne_nil : whole ≠ []) (hwhole : ∀ c ∈ whole, isAsciiDigit c = true)
    (hfraction : ∀ c ∈ fraction, isAsciiDigit c = true) (h : IsExponent suffix e) :
    IsDecimal (digitsNat (whole ++ fraction)) (e - fraction.length) (whole ++ (pointed fraction ++ suffix)) where
  exists_digit := by
    cases whole with
    | nil => exact absurd rfl ne_nil
    | cons d ds => exact ⟨d, _, rfl, hwhole d List.mem_cons_self⟩
  mem_decimalChars := by
    intro c hc
    rcases List.mem_append.1 hc with hc | hc
    · exact mem_decimalChars_of_isAsciiDigit (hwhole c hc)
    rcases List.mem_append.1 hc with hc | hc
    · rw [pointed] at hc
      split at hc
      · cases hc
      rcases List.mem_cons.1 hc with rfl | hc
      · decide
      · exact mem_decimalChars_of_isAsciiDigit (hfraction c hc)
    · exact h.mem_decimalChars c hc
  readDecimal_eq := by
    intro s
    have hsuffix : suffix.takeWhile isAsciiDigit = [] ∧ suffix.dropWhile isAsciiDigit = suffix := by
      cases h <;> exact ⟨rfl, rfl⟩
    have hafter : (pointed fraction ++ suffix).takeWhile isAsciiDigit = [] ∧
        (pointed fraction ++ suffix).dropWhile isAsciiDigit = pointed fraction ++ suffix := by
      rw [pointed]
      split
      · exact hsuffix
      · exact ⟨rfl, rfl⟩
    have hempty : whole.isEmpty = false := List.isEmpty_eq_false_iff.2 ne_nil
    rw [readDecimal, List.takeWhile_append_of_pos hwhole, List.dropWhile_append_of_pos hwhole, hafter.1, hafter.2,
      List.append_nil, hempty]
    have hread := h.readExponent_eq
    cases fraction with
    | nil =>
      cases h with
      | none => rfl
      | written width =>
        show Option.map _ (readExponent ('e' :: (if e < 0 then '-' else '+') ::
          (numeral 10 e.natAbs).leftpad width '0')) = _
        rw [hread]
        rfl
    | cons d ds =>
      show Option.map _ (readExponent ((d :: ds ++ suffix).dropWhile isAsciiDigit)) = _
      rw [List.dropWhile_append_of_pos hfraction, hsuffix.2, hread]
      show some (Double.ofDecimal s (digitsNat (whole ++ (d :: ds ++ suffix).takeWhile isAsciiDigit))
        (e - ((d :: ds ++ suffix).takeWhile isAsciiDigit).length)) = _
      rw [List.takeWhile_append_of_pos hfraction, hsuffix.1, List.append_nil]

private theorem mul_pow_iff {n k : Nat} {text : List Char} :
    IsDecimal (n * 10 ^ k) (e - k) text ↔ IsDecimal n e text := by
  have hvalue : ∀ s, Double.ofDecimal s (n * 10 ^ k) (e - k) = Double.ofDecimal s n e := fun s =>
    Double.ofDecimal_mul_pow n k e
  constructor
  · exact fun h => ⟨h.exists_digit, h.mem_decimalChars, fun s => hvalue s ▸ h.readDecimal_eq s⟩
  · exact fun h => ⟨h.exists_digit, h.mem_decimalChars, fun s => (hvalue s).symm ▸ h.readDecimal_eq s⟩

/-- A decimal with a sign is read as the double with that sign. -/
private theorem readDouble_eq {n : Nat} {text : List Char} (h : IsDecimal n e text) (s : Bool) :
    readDouble ((if s then ['-'] else []) ++ text) = some (.ofDecimal s n e) := by
  cases s with
  | true =>
    have hchars : ∀ c ∈ '-' :: text, c ∈ decimalChars := by
      intro c hc
      rcases List.mem_cons.1 hc with rfl | hc
      · decide
      · exact h.mem_decimalChars c hc
    exact (readDouble_of_decimal hchars rfl).trans (h.readDecimal_eq true)
  | false =>
    have hsign : splitSign text = (false, text) := by
      obtain ⟨d, rest, rfl, hd⟩ := h.exists_digit
      exact splitSign_cons (by rw [isLiteralChar, hd, Bool.true_or]) rest
    exact (readDouble_of_decimal h.mem_decimalChars hsign).trans (h.readDecimal_eq false)

end IsDecimal

/-! ### The layouts -/

namespace FloatLayout

variable {ds : List Char} (ne_nil : ds ≠ []) (hds : ∀ c ∈ ds, isAsciiDigit c = true)

include ne_nil hds

/-- The three forms with a point: after zeros and the point, before zeros and the point, and on both sides of it. -/
private theorem isDecimal_positional (k : Int) : IsDecimal (digitsNat ds) (k - ds.length) (positional ds k) := by
  have hlength := List.length_pos_iff.2 ne_nil
  rw [positional]
  split
  · rename_i hsmall
    have hfraction : ∀ c ∈ List.replicate (-k).toNat '0' ++ ds, isAsciiDigit c = true := fun c hc =>
      (List.mem_append.1 hc).elim isAsciiDigit_of_mem_zeros (hds c)
    have h := IsDecimal.of_parts (List.cons_ne_nil '0' []) (List.all_eq_true.1 rfl) hfraction .none
    have hdigits : digitsNat (['0'] ++ (List.replicate (-k).toNat '0' ++ ds)) = digitsNat ds := by
      show digitsNat (List.replicate 1 '0' ++ (List.replicate (-k).toNat '0' ++ ds)) = _
      rw [digitsNat_zeros_append, digitsNat_zeros_append]
    rw [hdigits, pointed, if_neg (List.append_ne_nil_of_right_ne_nil _ ne_nil), List.append_nil] at h
    have hexponent : 0 - ((List.replicate (-k).toNat '0' ++ ds).length : Int) = k - ds.length := by
      rw [List.length_append, List.length_replicate]
      omega
    rw [hexponent] at h
    exact h
  · split
    · rename_i hlarge
      have hwhole : ∀ c ∈ ds ++ List.replicate (k.toNat - ds.length) '0', isAsciiDigit c = true := fun c hc =>
        (List.mem_append.1 hc).elim (hds c) isAsciiDigit_of_mem_zeros
      have hzero : ∀ c ∈ ['0'], isAsciiDigit c = true := List.all_eq_true.1 rfl
      have h := IsDecimal.of_parts (List.append_ne_nil_of_left_ne_nil ne_nil _) hwhole hzero .none
      have hdigits : digitsNat (ds ++ List.replicate (k.toNat - ds.length) '0' ++ ['0']) =
          digitsNat ds * 10 ^ (k.toNat - ds.length + 1) := by
        rw [List.append_assoc, ← List.replicate_succ', digitsNat_append_zeros]
      have hexponent : 0 - ((['0'] : List Char).length : Int) = k - ds.length - (k.toNat - ds.length + 1 : Nat) := by
        rw [List.length_singleton]
        omega
      rw [hdigits, hexponent] at h
      exact IsDecimal.mul_pow_iff.1 h
    · have hwhole : ∀ c ∈ ds.take k.toNat, isAsciiDigit c = true := fun c hc => hds c (List.mem_of_mem_take hc)
      have hfraction : ∀ c ∈ ds.drop k.toNat, isAsciiDigit c = true := fun c hc => hds c (List.mem_of_mem_drop hc)
      have htake : ds.take k.toNat ≠ [] := by
        rw [Ne, List.take_eq_nil_iff, not_or]
        exact ⟨by omega, ne_nil⟩
      have hdrop : ds.drop k.toNat ≠ [] := by
        rw [Ne, List.drop_eq_nil_iff]
        omega
      have h := IsDecimal.of_parts htake hwhole hfraction .none
      have hexponent : 0 - ((ds.drop k.toNat).length : Int) = k - ds.length := by
        rw [List.length_drop]
        omega
      rw [List.take_append_drop, pointed, if_neg hdrop, List.append_nil, hexponent] at h
      exact h

private theorem isDecimal_scientific (layout : FloatLayout) (e : Int) :
    IsDecimal (digitsNat ds) (e + 1 - ds.length) (layout.scientific ds e) := by
  cases ds with
  | nil => exact absurd rfl ne_nil
  | cons d rest =>
    have hd : ∀ c ∈ [d], isAsciiDigit c = true := fun c hc => hds c (List.mem_singleton.1 hc ▸ List.mem_cons_self)
    have hrest : ∀ c ∈ rest, isAsciiDigit c = true := fun c hc => hds c (List.mem_cons_of_mem d hc)
    have h := IsDecimal.of_parts (List.cons_ne_nil d []) hd hrest (.written layout.exponentWidth e)
    have hexponent : e - (rest.length : Int) = e + 1 - (d :: rest).length := by
      rw [List.length_cons]
      omega
    have htext : layout.scientific (d :: rest) e = [d] ++ (pointed rest ++
        'e' :: (if e < 0 then '-' else '+') :: (numeral 10 e.natAbs).leftpad layout.exponentWidth '0') := by
      cases rest <;> simp [scientific, pointed]
    rw [hexponent] at h
    rw [htext]
    exact h

omit ne_nil hds

variable {a : Magnitude} (hpos : 0 < a.units)

include hpos

private theorem shortest_ne_zero : a.shortest.1 ≠ 0 := by
  intro hzero
  have h := a.ofRatio_shortest hpos false
  rw [hzero, Nat.zero_mul, Double.ofRatio_zero (Nat.pow_pos (by decide))] at h
  cases h
  exact absurd hpos (by decide)

/-- A positive magnitude is written as its shortest digits times a power of ten. -/
private theorem isDecimal_write (layout : FloatLayout) : IsDecimal a.shortest.1 a.shortest.2 (layout.write a) := by
  have hne := shortest_ne_zero hpos
  rw [write]
  generalize a.shortest = decimal at hne ⊢
  obtain ⟨c, e⟩ := decimal
  dsimp only at hne ⊢
  obtain ⟨m, hm⟩ := exists_append_zeros (numeral 10 c)
  generalize ((numeral 10 c).reverse.dropWhile (· == '0')).reverse = ds at *
  have hdigits : digitsNat ds * 10 ^ m = c := by rw [← digitsNat_append_zeros, ← hm, digitsNat_numeral]
  have hds : ∀ c' ∈ ds, isAsciiDigit c' = true := fun c' hc' =>
    isAsciiDigit_of_mem_numeral (hm ▸ List.mem_append_left _ hc')
  have ne_nil : ds ≠ [] := by
    rintro rfl
    exact hne (hdigits.symm.trans (Nat.zero_mul _))
  have hlength : ((numeral 10 c).length : Int) + e = ds.length + m + e := by
    rw [hm, List.length_append, List.length_replicate, Nat.cast_add]
  generalize ((numeral 10 c).length : Int) + e = k at *
  -- the zeros left out at the end of the digits are in the exponent
  have hdecimal : ∀ text, IsDecimal (digitsNat ds) (k - ds.length) text → IsDecimal c e text := by
    intro text h
    have hexponent : e = k - ds.length - (m : Int) := by omega
    rw [← hdigits, hexponent]
    exact IsDecimal.mul_pow_iff.2 h
  split
  · exact hdecimal _ (isDecimal_positional ne_nil hds k)
  · have h := isDecimal_scientific ne_nil hds layout (k - 1)
    rw [Int.sub_add_cancel] at h
    exact hdecimal _ h

end FloatLayout

/-! ### Doubles -/

namespace Double

/-- The text of a finite number is a decimal with a sign, and its value is the number. -/
private theorem exists_isDecimal (s : Bool) (a : Magnitude) : ∃ n e body, IsDecimal n e body ∧
    text (finite s a) = (if s then ['-'] else []) ++ body ∧ ofDecimal s n e = finite s a := by
  rw [text]
  split
  · rename_i hzero
    have ha : a = Magnitude.zero := Magnitude.eq_of_units_eq (by rw [Magnitude.units_zero, a.units_eq_zero_iff, hzero])
    have hdigit : ∀ c ∈ ['0'], isAsciiDigit c = true := List.all_eq_true.1 rfl
    rw [ha]
    exact ⟨_, _, _, IsDecimal.of_parts (List.cons_ne_nil '0' []) hdigit hdigit .none, rfl, rfl⟩
  · rename_i hne
    have hpos : 0 < a.units := Nat.pos_of_ne_zero (mt a.units_eq_zero_iff.1 hne)
    exact ⟨_, _, _, FloatLayout.isDecimal_write hpos floatLayout, rfl, by rw [ofDecimal_eq, a.ofRatio_shortest hpos]⟩

/-- A double is read as it was written. -/
theorem readDouble_text (x : Double) : readDouble x.text = some x := by
  cases x with
  | nan => decide
  | infinite s => cases s <;> decide
  | finite s a =>
    obtain ⟨n, e, body, hbody, htext, hvalue⟩ := exists_isDecimal s a
    rw [htext, hbody.readDouble_eq, hvalue]

/-- The characters of the texts of doubles: those of decimals and of the words for nan and infinity. -/
def textChars : List Char :=
  decimalChars ++ ['i', 'n', 'f', 'a']

theorem mem_textChars_of_mem_text {x : Double} {c : Char} (h : c ∈ x.text) : c ∈ textChars := by
  cases x with
  | nan =>
    have hall : (text nan).all (fun c => decide (c ∈ textChars)) = true := by decide
    exact of_decide_eq_true (List.all_eq_true.1 hall c h)
  | infinite s =>
    have hall : (text (infinite s)).all (fun c => decide (c ∈ textChars)) = true := by cases s <;> decide
    exact of_decide_eq_true (List.all_eq_true.1 hall c h)
  | finite s a =>
    obtain ⟨n, e, body, hbody, htext, -⟩ := exists_isDecimal s a
    rw [htext] at h
    refine List.mem_append_left _ ((List.mem_append.1 h).elim (fun hsign => ?_) (hbody.mem_decimalChars c))
    split at hsign
    · rw [List.mem_singleton.1 hsign]
      decide
    · cases hsign

end Double

end DeskCalc
