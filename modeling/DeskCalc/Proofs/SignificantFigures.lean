import Mathlib.Algebra.Group.Defs
import DeskCalc.Elementary.Platform
import DeskCalc.Proofs.GroupedDigits
import DeskCalc.Proofs.Reevaluation
import DeskCalc.Proofs.VanishingDigits

/-!
# Signs and points that mean something

A minus sign should stand only where a digit other than zero is written, and a point only where such a digit comes after
it (`SignIsMeant`, `PointIsMeant`).  But the sign is that of the exact number, and in bases other than ten the zeros at the
end of a fraction are kept.  So the numeral of a small negative number is a zero with a sign, and that of a small fraction
has a point and zeros (`signs_not_meant`).

That happens exactly where all digits vanish (`signs_meant_iff`).  In base ten the point is always meant, and results are
rounded before they are written, so there their signs are meant as well.
-/

namespace DeskCalc

open Magnitude (unitsPerOne)

/-! ### Signs and points of numerals -/

/-- A minus sign at the beginning of the text comes with a digit other than zero. -/
def SignIsMeant (text : List Char) : Prop :=
  (text.dropWhile (· == ' ')).head? = some '-' → ∃ c ∈ text, c ∈ digitSigns ∧ c ≠ '0'

/-- A point in the text comes before a digit other than zero. -/
def PointIsMeant (text : List Char) : Prop :=
  '.' ∈ text → ∃ c ∈ fractionFigures text, c ∈ digitSigns ∧ c ≠ '0'

/-- The text has a digit other than zero. -/
def hasFigure (text : List Char) : Bool :=
  text.any fun c => digitSigns.contains c && c != '0'

private theorem hasFigure_iff (text : List Char) : hasFigure text = true ↔ ∃ c ∈ text, c ∈ digitSigns ∧ c ≠ '0' := by
  simp [hasFigure]

instance : DecidablePred SignIsMeant :=
  fun text => decidable_of_iff (_ → hasFigure text = true) (imp_congr_right fun _ => hasFigure_iff text)

instance : DecidablePred PointIsMeant :=
  fun text => decidable_of_iff (_ → hasFigure (fractionFigures text) = true)
    (imp_congr_right fun _ => hasFigure_iff (fractionFigures text))

private theorem fractionFigures_eq (text : List Char) : fractionFigures text = (text.dropWhile (· != '.')).tail := by
  rw [fractionFigures, unsigned.eq_def]
  split <;> rfl

/-- Whether the point is meant is a matter of what comes after it. -/
private theorem pointIsMeant_iff {text fs : List Char}
    (hpoint : text.dropWhile (· != '.') = if fs = [] then [] else '.' :: fs)
    (hfs : ∀ c ∈ fs, c ∈ digitSigns) : PointIsMeant text ↔ (fs ≠ [] → ∃ c ∈ fs, c ≠ '0') := by
  have hmem : '.' ∈ text ↔ fs ≠ [] := by
    have hnil : text.dropWhile (· != '.') = [] ↔ '.' ∉ text := by
      rw [List.dropWhile_eq_nil_iff]
      exact ⟨fun h hc => bne_iff_ne.1 (h _ hc) rfl, fun h c hc => bne_iff_ne.2 fun heq => h (heq ▸ hc)⟩
    rw [← not_iff_not, ← hnil, hpoint, not_not]
    split <;> simp_all
  have hfigures : fractionFigures text = fs := by
    rw [fractionFigures_eq, hpoint]
    split
    · rename_i heq
      exact heq.symm
    · rfl
  rw [PointIsMeant, hmem, hfigures]
  exact imp_congr_right fun _ => exists_congr fun c => and_congr_right fun hc => and_iff_right (hfs c hc)

namespace NumeralParts

variable {minus ws fs text : List Char} (h : NumeralParts minus ws fs text)

include h

private theorem figure_of_mem {c : Char} (hc : c ∈ text) (hdigit : c ∈ digitSigns) : c ∈ ws ++ fs := by
  rw [h.text_eq, List.mem_append, List.mem_append] at hc
  rcases hc with hc | hc | hc
  · rcases h.minus_eq with rfl | rfl
    · cases hc
    · rw [List.mem_singleton.1 hc] at hdigit
      exact absurd hdigit (by decide)
  · exact List.mem_append_left _ hc
  · split at hc
    · cases hc
    · rcases List.mem_cons.1 hc with rfl | hc
      · exact absurd hdigit (by decide)
      · exact List.mem_append_right _ hc

private theorem mem_of_figure {c : Char} (hc : c ∈ ws ++ fs) : c ∈ text := by
  rw [h.text_eq, List.mem_append, List.mem_append]
  rcases List.mem_append.1 hc with hc | hc
  · exact .inr (.inl hc)
  · refine .inr (.inr ?_)
    rw [if_neg (List.ne_nil_of_mem hc)]
    exact List.mem_cons_of_mem _ hc

/-- What is shown has the digits of the numeral. -/
private theorem exists_figure_iff {t : List Char} (ht : t ∈ [text, displayForm text]) :
    (∃ c ∈ t, c ∈ digitSigns ∧ c ≠ '0') ↔ ∃ c ∈ ws ++ fs, c ≠ '0' := by
  have hmem : ∀ c ∈ digitSigns, c ∈ t ↔ c ∈ text := by
    intro c hdigit
    rcases List.mem_pair.1 ht with rfl | rfl
    · exact Iff.rfl
    · refine ⟨fun hc => ?_, fun hc => ?_⟩
      · rcases mem_displayForm hc with rfl | rfl | hc
        · exact absurd hdigit (by decide)
        · exact absurd hdigit (by decide)
        · exact hc
      · rw [← h.shownAs.plain_eq] at hc
        exact (List.dropWhile_suffix _).subset (List.mem_of_mem_filter hc)
  constructor
  · rintro ⟨c, hc, hdigit, hne⟩
    exact ⟨c, h.figure_of_mem ((hmem c hdigit).1 hc) hdigit, hne⟩
  · rintro ⟨c, hc, hne⟩
    have hdigit := h.mem_digitSigns c hc
    exact ⟨c, (hmem c hdigit).2 (h.mem_of_figure hc), hdigit, hne⟩

/-- What is shown begins with a minus sign if the numeral does. -/
private theorem head?_eq_minus_iff {t : List Char} (ht : t ∈ [text, displayForm text]) :
    (t.dropWhile (· == ' ')).head? = some '-' ↔ minus = ['-'] := by
  have hws : '-' ∉ ws := fun hc => absurd (h.mem_digitSigns _ (List.mem_append_left _ hc)) (by decide)
  have hhead : ∃ before rest, t.dropWhile (· == ' ') = minus ++ before ++ rest ∧ before ≠ [] ∧ '-' ∉ before := by
    rcases List.mem_pair.1 ht with rfl | rfl
    · refine ⟨ws, if fs = [] then [] else '.' :: fs, ?_, h.ne_nil, hws⟩
      rw [dropWhile_eq_self fun c hc => beq_eq_false_iff_ne.2 (h.of_mem hc).1, List.append_assoc]
      exact h.text_eq
    · obtain ⟨first, others, hgroups⟩ := exists_groups h.ne_nil
      refine ⟨grouped ws, if fs = [] then [] else '.' :: fs, ?_, ?_, fun hc => ?_⟩
      · have hplain := hgroups.grouped_eq hws (.inl rfl)
        rw [List.nil_append, List.nil_append] at hplain
        rw [h.dropWhile_displayForm, hgroups.grouped_eq hws h.minus_eq, hplain]
      · intro hnil
        have hfilter := filter_grouped ws
        rw [hnil, List.filter_nil, eq_comm, List.filter_eq_nil_iff] at hfilter
        obtain ⟨c, hc⟩ := List.exists_mem_of_ne_nil ws h.ne_nil
        have hcomma : c = ',' := by simpa using hfilter c hc
        exact absurd (h.mem_digitSigns c (List.mem_append_left _ hc)) (by simp [hcomma, digitSigns])
      · exact (mem_grouped hc).elim (by decide) hws
  obtain ⟨before, rest, heq, hne, hbefore⟩ := hhead
  obtain ⟨c, before, rfl⟩ := List.exists_cons_of_ne_nil hne
  rw [heq]
  rcases h.minus_eq with rfl | rfl
  · refine iff_of_false (fun hc => hbefore ?_) (List.cons_ne_nil _ _).symm
    rw [Option.some.inj hc]
    exact List.mem_cons_self
  · exact iff_of_true rfl rfl

/-- A sign is meant if not all digits are zeros. -/
private theorem signIsMeant_iff {t : List Char} (ht : t ∈ [text, displayForm text]) :
    SignIsMeant t ↔ ¬(minus = ['-'] ∧ ∀ c ∈ ws ++ fs, c = '0') := by
  rw [SignIsMeant, h.head?_eq_minus_iff ht, h.exists_figure_iff ht, not_and, not_forall₂]
  simp only [exists_prop, Ne]

/-- A point is meant if not all digits after it are zeros. -/
private theorem pointIsMeant_iff {t : List Char} (ht : t ∈ [text, displayForm text]) :
    PointIsMeant t ↔ ¬(fs ≠ [] ∧ ∀ c ∈ fs, c = '0') := by
  have hpoint : t.dropWhile (· != '.') = if fs = [] then [] else '.' :: fs := by
    rcases List.mem_pair.1 ht with rfl | rfl
    · exact h.split_eq.2
    · exact h.displayForm_split.2
  rw [DeskCalc.pointIsMeant_iff hpoint fun c hc => h.mem_digitSigns c (List.mem_append_right _ hc), not_and, not_forall₂]
  simp only [exists_prop, Ne]

end NumeralParts

private theorem signOf_eq_minus_iff (s : Bool) (a : Magnitude) : signOf s a = ['-'] ↔ s = true ∧ a.units ≠ 0 := by
  rw [signOf, Ne, a.units_eq_zero_iff]
  cases s <;> simp

/-! ### When signs and points are lost -/

/-- The number is negative, and all digits of its numeral are zeros. -/
structure LosesSign (b n : Nat) (s : Bool) (a : Magnitude) : Prop where
  negative : s = true
  ne_zero : a.units ≠ 0
  vanishes : if b = 10 then 2 * a.value * 10 ^ n ≤ 1 else Fades b n (.finite false a)

/-- The number has a fraction, and all digits of it are zeros. -/
structure LosesPoint (b n : Nat) (a : Magnitude) : Prop where
  ne_ten : b ≠ 10
  pos : 0 < n
  not_whole : a.units % unitsPerOne ≠ 0
  vanishes : Fades b n ((Double.finite false a).sub (.ofNat a.whole))

/-- The sign and the point of the text are meant unless they are lost. -/
structure Meant (b n : Nat) (s : Bool) (a : Magnitude) (text : List Char) : Prop where
  sign_iff : SignIsMeant text ↔ ¬LosesSign b n s a
  point_iff : PointIsMeant text ↔ ¬LosesPoint b n a

private theorem meant_decimal (n : Nat) (s : Bool) (a : Magnitude) {t : List Char}
    (ht : t ∈ [signOf s a ++ a.trimmed n, displayForm (signOf s a ++ a.trimmed n)]) : Meant 10 n s a t := by
  have hparts := numeralParts_trimmed s a n
  refine ⟨?_, ?_⟩
  · rw [hparts.signIsMeant_iff ht, signOf_eq_minus_iff, a.forall_decimal_iff, not_iff_not]
    exact ⟨fun h => ⟨h.1.1, h.1.2, h.2⟩, fun h => ⟨⟨h.negative, h.ne_zero⟩, h.vanishes⟩⟩
  · -- the last digit of a fraction is not zero
    rw [hparts.pointIsMeant_iff ht]
    refine iff_of_true (fun h => ?_) fun h => h.ne_ten rfl
    have hlast := List.rdropWhile_last_not (· == '0') (a.fraction n) h.1
    exact hlast (beq_iff_eq.2 (h.2 _ (List.getLast_mem h.1)))

private theorem meant_radix {b : Nat} (two_le : 2 ≤ b) (le : b ≤ 36) (ne_ten : b ≠ 10) (n : Nat) (s : Bool)
    (a : Magnitude)
    {t : List Char} (ht : t ∈ [signOf s a ++ radixNumeral b n a, displayForm (signOf s a ++ radixNumeral b n a)]) :
    Meant b n s a t := by
  obtain ⟨r, hr, hunits, hparts⟩ := exists_numeralParts_radix two_le le n s a
  have hrest : r.units < unitsPerOne := hunits ▸ Nat.mod_lt _ Magnitude.unitsPerOne_pos
  have hfractions : ∀ d ∈ fractionDigits b n (.finite false r), d < 36 := fun d hd =>
    Nat.lt_of_lt_of_le (fractionDigits_lt (by omega) le n hrest d hd) le
  have hzeros : (∀ c ∈ (fractionDigits b n (.finite false r)).map digitChar, c = '0') ↔ Fades b n (.finite false r) := by
    rw [List.forall_mem_map, forall₂_congr fun d hd => digitChar_eq_zero_iff (hfractions d hd)]
    exact forall_fractionDigits_iff two_le le hrest n
  have hfades : (a.whole = 0 ∧ Fades b n (.finite false r)) ↔ Fades b n (.finite false a) := by
    rcases Nat.lt_or_ge a.units unitsPerOne with hbelow | habove
    · have hra : r = a := Magnitude.eq_of_units_eq (by rw [hunits, Nat.mod_eq_of_lt hbelow])
      rw [hra]
      exact and_iff_right (Nat.div_eq_of_lt hbelow)
    · exact iff_of_false (fun h => (Nat.div_pos habove Magnitude.unitsPerOne_pos).ne' h.1)
        ((AtLeastOne.finite habove).not_fades two_le le n)
  refine ⟨?_, ?_⟩
  · rw [hparts.signIsMeant_iff ht, signOf_eq_minus_iff, List.forall_mem_append, forall_numeral_iff two_le le, hzeros,
      hfades, not_iff_not]
    have hvanishes : (if b = 10 then 2 * a.value * 10 ^ n ≤ 1 else Fades b n (.finite false a)) ↔
        Fades b n (.finite false a) := by rw [if_neg ne_ten]
    exact ⟨fun h => ⟨h.1.1, h.1.2, hvanishes.2 h.2⟩, fun h => ⟨⟨h.negative, h.ne_zero⟩, hvanishes.1 h.vanishes⟩⟩
  · have hsome : (fractionDigits b n (.finite false r)).map digitChar ≠ [] ↔ 0 < n ∧ r.units ≠ 0 := by
      rw [Ne, List.map_eq_nil_iff, fractionDigits_eq_nil_iff, not_or, r.isZero_finite, r.value_eq_zero_iff,
        Nat.pos_iff_ne_zero]
    rw [hparts.pointIsMeant_iff ht, hzeros, hsome, not_iff_not, hunits]
    constructor
    · rintro ⟨⟨hpos, hwhole⟩, hvanishes⟩
      exact ⟨ne_ten, hpos, hwhole, hr ▸ hvanishes⟩
    · intro h
      exact ⟨⟨h.pos, h.not_whole⟩, hr ▸ h.vanishes⟩

private theorem exists_meant {b : Nat} (two_le : 2 ≤ b) (le : b ≤ 36) (n : Nat) (s : Bool) (a : Magnitude)
    (hplaces : b = 10 → n < 2 ^ 31) :
    ∃ text, plainNumeral b n (.finite s a) = .ok text ∧ ∀ t ∈ [text, displayForm text], Meant b n s a t := by
  rw [plainNumeral, if_neg (by omega)]
  split
  · rename_i hten
    obtain rfl : b = 10 := by omega
    rw [decimalPlaces_eq_ok (Int.natCast_nonneg n) (hplaces rfl)]
    exact ⟨_, rfl, fun t ht => meant_decimal n s a ht⟩
  · exact ⟨_, rfl, fun t ht => meant_radix two_le le (by omega) n s a ht⟩

/-- A result loses nothing in base ten: it has been rounded to the places it is written with. -/
private theorem not_loses_of_evaluate {fn : Elementary} {mode : AngleMode} {n : Nat} {previous : PreviousAnswer}
    {problem : String} {s : Bool} {a : Magnitude} (h : evaluate fn mode n previous problem = .ok (.finite s a)) :
    ¬LosesSign 10 n s a ∧ ¬LosesPoint 10 n a := by
  have hround := roundTo_of_evaluate (Int.natCast_nonneg n) h
  refine ⟨fun hloses => ?_, fun hloses => hloses.ne_ten rfl⟩
  have hzero := (a.atPlaces_eq_zero_iff n).2 hloses.vanishes
  exact hloses.ne_zero (a.value_eq_zero_iff.1 (a.value_eq_zero_of_roundTo n hround hzero))

/-- In every base the sign and the point of a numeral are meant unless they are lost.  In base ten nothing is lost of results,
and if the base is a power of two, all digits are zeros exactly if the number is less than one unit of the last place. -/
theorem signs_meant_iff {b n : Nat} (two_le : 2 ≤ b) (le : b ≤ 36) (hplaces : b = 10 → n < 2 ^ 31) (s : Bool)
    (a : Magnitude) :
    (∃ text shown, plainNumeral b n (.finite s a) = .ok text ∧ shownNumeral b n (.finite s a) = .ok shown ∧
      Meant b n s a text ∧ Meant b n s a shown) ∧
    (∀ fn mode previous problem, b = 10 → evaluate fn mode n previous problem = .ok (.finite s a) →
      ¬LosesSign b n s a ∧ ¬LosesPoint b n a) ∧
    (b ∈ [2, 4, 8, 16, 32] → (Fades b n (.finite false a) ↔ a.value * (b : ℚ) ^ n < 1)) := by
  obtain ⟨text, htext, h⟩ := exists_meant two_le le n s a hplaces
  refine ⟨⟨text, displayForm text, htext, shownNumeral_eq htext, h _ (by simp), h _ (by simp)⟩, ?_, fun hpower => ?_⟩
  · rintro fn mode previous problem rfl hv
    exact not_loses_of_evaluate hv
  · obtain ⟨k, hk, rfl⟩ := exists_two_pow hpower
    have hpos : k ≠ 0 := by
      rintro rfl
      exact absurd two_le (by decide)
    exact fades_two_pow_iff (Nat.pos_of_ne_zero hpos) hk a n

/-- The sixteenth below zero has a sign and a point in base two with four places, and twenty-five hundredths above zero have
a point in base ten. -/
theorem signs_meant_sixteenth :
    let sixteenth : Magnitude := ⟨2 ^ 52, 1018, by decide, by decide, .inl (by decide)⟩
    let quarter : Magnitude := ⟨2 ^ 52, 1020, by decide, by decide, .inl (by decide)⟩
    ¬sixteenth.value * ((2 : ℕ) : ℚ) ^ 4 < 1 ∧ ¬LosesSign 2 4 true sixteenth ∧ ¬LosesPoint 2 4 sixteenth ∧
      ¬LosesSign 10 2 false quarter ∧ ¬LosesPoint 10 2 quarter := by
  intro sixteenth quarter
  obtain ⟨⟨text, -, htext, -, hmeant, -⟩, -, hfades⟩ :=
    signs_meant_iff (b := 2) (n := 4) (by decide) (by decide) (by decide) true sixteenth
  have hwritten : plainNumeral 2 4 (.finite true sixteenth) = .ok "-0.0001".toList := by decide +kernel
  obtain rfl : "-0.0001".toList = text := Except.ok.inj (hwritten.symm.trans htext)
  have hreached : ¬Fades 2 4 (.finite false sixteenth) := by
    rw [Fades]
    decide +kernel
  have hv : evaluate .platform .degrees 2 .absent "0.25" = .ok (.finite false quarter) := by decide +kernel
  have hresult := signs_meant_iff (b := 10) (n := 2) (by decide) (by decide) (fun _ => by decide) false quarter
  exact ⟨mt (hfades (by decide)).2 hreached, hmeant.sign_iff.1 (by decide), hmeant.point_iff.1 (by decide),
    hresult.2.1 .platform .degrees .absent "0.25" rfl hv⟩

/-- The value of `-0.0001` is not zero, but in base two the ten digits after its point are zeros.  In base ten `-0.001` is
rounded to zero if it has two places. -/
theorem signs_not_meant :
    ∃ x, evaluate .platform .degrees 10 .absent "-0.0001" = .ok x ∧
      plainNumeral 2 10 x = .ok "-0.0000000000".toList ∧ shownNumeral 2 10 x = .ok "        -0.0000000000".toList ∧
      (∀ t ∈ ["-0.0000000000".toList, "        -0.0000000000".toList], ¬SignIsMeant t ∧ ¬PointIsMeant t) ∧
      plainNumeral 10 2 (.ofRatio true 1 1000) = .ok ['-', '0'] ∧ ¬SignIsMeant ['-', '0'] := by
  refine ⟨.ofRatio true 1 10000, ?_, ?_, ?_, ?_, ?_, ?_⟩
  all_goals decide +kernel

end DeskCalc
