import DeskCalc.Proofs.FixedPoint
import DeskCalc.Proofs.FractionDigits
import DeskCalc.Proofs.RawKernel

/-!
# Writing results with operations that trap

Signs of digits are looked up in a table, integral parts are integers that have to be finite and to fit a double
again, a decimal numeral has a limited precision, and a numeral for display is split into exactly two parts at its
point.  `RawNumeral.plain` and `RawNumeral.shown` write a result with these operations.

They are the writers `plainNumeral` and `shownNumeral` (`RawNumeral.plain_eq`, `RawNumeral.shown_eq`).  Of all the
traps only the one of the limited precision is left: each digit is below the base and so in the table, each integral
part is that of a finite number, and a numeral consists of signs from the table and at most one point
(`exists_numeralParts`).
-/

namespace DeskCalc

open Magnitude (unitsPerOne)
open RawKernel (integerNear ofInteger)

/-- Why a numeral cannot be written: a fault of the settings, or a decimal with too many places. -/
def NumeralError.halt : NumeralError → Halt
  | setting f => .fault (.setting f)
  | places _ => .trap .unrepresentable

/-- The signs of digits. -/
def digitSigns : List Char :=
  ['0', '1', '2', '3', '4', '5', '6', '7', '8', '9', 'a', 'b', 'c', 'd', 'e', 'f', 'g', 'h', 'i', 'j', 'k', 'l', 'm',
    'n', 'o', 'p', 'q', 'r', 's', 't', 'u', 'v', 'w', 'x', 'y', 'z']

namespace RawNumeral

/-- The sign of a digit.  There is none for a number below zero. -/
def sign (d : Int) : Except Halt Char :=
  if d < 0 then .error (.trap .missingEntry) else entry digitSigns d.toNat

/-- The integral part of a number. -/
def truncated (x : Double) : Except Halt Int :=
  integerNear (fun u => u.tdiv unitsPerOne) x

/-- The digits of `n`, the last one first to be found, before those that are `written`. -/
def whole (b n : Nat) (written : List Char) : Except Halt (List Char) :=
  if b < 2 ∨ n < b then do
    let c ← sign n
    .ok (c :: written)
  else do
    let c ← sign (n % b : Nat)
    whole b (n / b) (c :: written)
termination_by n
decreasing_by
  exact Nat.div_lt_self (by omega) (by omega)

/-- At most so many digits of a fraction. -/
def fraction (b : Nat) : Nat → Double → Except Halt (List Char)
  | 0, _ => .ok []
  | n + 1, f =>
    if f.isZero then .ok []
    else do
      let factor ← ofInteger b
      let digit ← truncated (f.mul factor)
      let c ← sign digit
      let taken ← ofInteger digit
      let cs ← fraction b n ((f.mul factor).sub taken)
      .ok (c :: cs)

/-- A number that is not negative in base `b` with at most `n` digits after the point. -/
def radix (b n : Nat) (x : Double) : Except Halt (List Char) := do
  let integral ← truncated x
  let ws ← whole b integral.toNat []
  let taken ← ofInteger integral
  let fs ← fraction b n (x.sub taken)
  .ok (if fs = [] then ws else ws ++ '.' :: fs)

/-- A magnitude with exactly `fix` decimal places. -/
def decimal (fix : Int) (a : Magnitude) : Except Halt (List Char) :=
  match decimalPlaces fix with
  | .ok places => .ok (a.fixedPoint places)
  | .error _ => .error (.trap .unrepresentable)

/-- A number in base `base` with at most `fix` digits after the point. -/
def plain (base fix : Int) (x : Double) : Except Halt (List Char) :=
  if base < 2 ∨ 36 < base then .error (.fault (.setting .radix))
  else
    match x with
    | .nan => .ok ['n', 'a', 'n']
    | .infinite s => .ok (if s then ['-', 'i', 'n', 'f'] else ['i', 'n', 'f'])
    | .finite _ a => do
      let minus := if x.lt (.zero false) then ['-'] else []
      if base = 10 then
        let rendered ← decimal fix a
        .ok (minus ++ stripped rendered)
      else
        let digits ← radix base.toNat fix.toNat (.finite false a)
        .ok (minus ++ digits)

/-- Both parts of a list of two. -/
def pair? {α : Type} : List α → Option (α × α)
  | [a, b] => some (a, b)
  | _ => none

/-- A numeral for display, split at its point. -/
def display (s : List Char) : Except Halt (List Char) :=
  if '.' ∈ s then do
    let (ws, fs) ← part (pair? (s.splitOn '.'))
    .ok (rightAligned (grouped ws) ++ '.' :: fs)
  else .ok (rightAligned (grouped s))

/-- A number as it is displayed. -/
def shown (base fix : Int) (x : Double) : Except Halt (List Char) := do
  let s ← plain base fix x
  display s

end RawNumeral

/-! ### Signs of digits -/

private theorem digitSigns_get {d : Nat} (h : d < 36) : digitSigns[d]? = some (digitChar d) := by
  have hall : ∀ d : Fin 36, digitSigns[d.val]? = some (digitChar d.val) := by decide +kernel
  exact hall ⟨d, h⟩

private theorem digitChar_mem {d : Nat} (h : d < 36) : digitChar d ∈ digitSigns :=
  List.mem_of_getElem? (digitSigns_get h)

private theorem mem_digitSigns_of_isAsciiDigit {c : Char} (h : isAsciiDigit c = true) : c ∈ digitSigns := by
  rw [isAsciiDigit_iff] at h
  have hc : digitChar (c.toNat - 48) = c := by
    rw [digitChar, if_pos (by omega), Nat.add_sub_cancel' h.1, Char.ofNat_toNat]
  rw [← hc]
  exact digitChar_mem (by omega)

namespace RawNumeral

private theorem sign_eq {d : Nat} (h : d < 36) : sign d = .ok (digitChar d) := by
  rw [sign, if_neg (by omega), entry, Int.toNat_natCast, digitSigns_get h]
  rfl

/-- The integral part of a magnitude as an integer. -/
private theorem truncated_eq (a : Magnitude) : truncated (.finite false a) = .ok a.whole := by
  have htdiv : (a.units : Int).tdiv unitsPerOne = a.whole := (Int.ofNat_tdiv _ _).symm
  exact congrArg Except.ok htdiv

private theorem ofInteger_natCast {n : Nat} {w : Magnitude} (h : w.units = n * unitsPerOne) :
    ofInteger n = .ok (.ofNat n) := by
  have hdouble : Double.ofInt n = .ofNat n := by
    rw [Double.ofInt, Int.natAbs_natCast, decide_eq_false (by omega), Double.ofNat]
  rw [ofInteger, hdouble, Double.ofNat_eq h]
  rfl

/-! ### Other bases -/

section Base

variable {b : Nat}

private theorem whole_eq (two_le : 2 ≤ b) (le : b ≤ 36) (n : Nat) (written : List Char) :
    whole b n written = .ok (numeral b n ++ written) := by
  induction n using Nat.strongRecOn generalizing written with
  | ind n ih =>
    rw [whole]
    rcases Nat.lt_or_ge n b with hlt | hge
    · rw [if_pos (.inr hlt), sign_eq (by omega), numeral, digits_of_lt hlt]
      rfl
    · have hdigit : n % b < 36 := Nat.lt_of_lt_of_le (Nat.mod_lt n (by omega)) le
      rw [if_neg (by omega), sign_eq hdigit]
      rw [ok_bind, ih _ (Nat.div_lt_self (by omega) two_le), numeral, numeral, digits_of_le two_le hge]
      simp

private theorem fraction_eq (two_le : 2 ≤ b) (le : b ≤ 36) (n : Nat) {a : Magnitude} (h : a.units < unitsPerOne) :
    fraction b n (.finite false a) = .ok ((fractionDigits b n (.finite false a)).map digitChar) := by
  induction n generalizing a with
  | zero => rfl
  | succ n ih =>
    obtain ⟨w, hw⟩ := Magnitude.exists_units_base le
    obtain ⟨m, r, hstep⟩ := exists_digitStep (by omega) le h
    obtain ⟨v, -, hv, -⟩ := m.exists_units_whole
    rw [fraction, hstep.fractionDigits_succ]
    split
    · rfl
    · rw [ofInteger_natCast hw, ok_bind, hstep.product, truncated_eq, ok_bind,
        sign_eq (Nat.lt_of_lt_of_le hstep.digit_lt le), ok_bind, ofInteger_natCast hv, ok_bind, hstep.rest,
        ih hstep.units_rest_lt, ok_bind, List.map_cons]

/-- No lookup and no conversion traps. -/
private theorem radix_eq (two_le : 2 ≤ b) (le : b ≤ 36) (n : Nat) (a : Magnitude) :
    radix b n (.finite false a) = .ok (radixNumeral b n a) := by
  obtain ⟨w, -, hw, -⟩ := a.exists_units_whole
  obtain ⟨r, hr, hunits⟩ := Double.sub_ofNat_whole a
  have hrest : r.units < unitsPerOne := hunits ▸ Nat.mod_lt _ Magnitude.unitsPerOne_pos
  rw [radix, truncated_eq, ok_bind, Int.toNat_natCast, whole_eq two_le le, ok_bind, ofInteger_natCast hw, ok_bind, hr,
    fraction_eq two_le le n hrest, ok_bind, radixNumeral, hr, List.append_nil]
  cases (fractionDigits b n (.finite false r)).map digitChar <;> rfl

end Base

/-! ### Whole numerals -/

/-- The sign of a number below zero. -/
theorem minus_eq (s : Bool) (a : Magnitude) :
    (if (Double.finite s a).lt (.zero false) then ['-'] else []) = signOf s a := by
  by_cases hzero : a.mantissa = 0
  · have hlt : (Double.finite s a).lt (.zero false) = false := RawKernel.lt_zero_of_isZero (beq_iff_eq.2 hzero)
    simp [hlt, signOf, hzero]
  · rw [RawKernel.lt_zero_eq (by simpa [Double.isZero] using hzero)]
    cases s <;> simp [signOf, hzero, Double.isNegative]

/-- Of all traps only the one of the limited precision is left. -/
theorem plain_eq (base fix : Int) (x : Double) :
    plain base fix x = (plainNumeral base fix x).mapError NumeralError.halt := by
  unfold plain plainNumeral
  split
  · rfl
  · rename_i hbase
    cases x with
    | nan => rfl
    | infinite s => rfl
    | finite s a =>
      dsimp only
      rw [minus_eq]
      split
      · rw [decimal]
        cases decimalPlaces fix with
        | ok places =>
          rw [ok_bind, a.stripped_fixedPoint]
          rfl
        | error d => rfl
      · rw [radix_eq (by omega) (by omega)]
        rfl

end RawNumeral

/-! ### The parts of a numeral -/

/-- The character is a minus sign or the sign of a digit. -/
def IsFigure (c : Char) : Prop :=
  c = '-' ∨ c ∈ digitSigns

instance : DecidablePred IsFigure :=
  fun _ => inferInstanceAs (Decidable (_ ∨ _))

theorem IsFigure.ne_point {c : Char} (h : IsFigure c) : c ≠ '.' := by
  rintro rfl
  exact absurd h (by decide)

/-- The text consists of figures, with a point between them if something comes after it. -/
def HasParts (text : List Char) : Prop :=
  ∃ ws fs, text = ws ++ (if fs = [] then [] else '.' :: fs) ∧ ∀ c ∈ ws ++ fs, IsFigure c

/-- The text is a minus sign or none, then signs of digits, and after these a point and more of them, or nothing. -/
structure NumeralParts (minus ws fs text : List Char) : Prop where
  text_eq : text = minus ++ (ws ++ if fs = [] then [] else '.' :: fs)
  minus_eq : minus = [] ∨ minus = ['-']
  ne_nil : ws ≠ []
  mem_digitSigns : ∀ c ∈ ws ++ fs, c ∈ digitSigns

section Parts

variable {minus ws fs text : List Char}

theorem NumeralParts.hasParts (h : NumeralParts minus ws fs text) : HasParts text := by
  refine ⟨minus ++ ws, fs, by rw [h.text_eq, List.append_assoc], fun c hc => ?_⟩
  rw [List.append_assoc, List.mem_append] at hc
  rcases hc with hc | hc
  · rcases h.minus_eq with rfl | rfl
    · cases hc
    · exact .inl (List.mem_singleton.1 hc)
  · exact .inr (h.mem_digitSigns c hc)

/-- The text is split before its point. -/
theorem NumeralParts.split_eq (h : NumeralParts minus ws fs text) :
    text.takeWhile (· != '.') = minus ++ ws ∧ text.dropWhile (· != '.') = if fs = [] then [] else '.' :: fs := by
  have hkept : ∀ c ∈ minus ++ ws, (c != '.') = true := by
    intro c hc
    refine bne_iff_ne.2 ?_
    rintro rfl
    rcases List.mem_append.1 hc with hc | hc
    · rcases h.minus_eq with rfl | rfl <;> simp at hc
    · exact absurd (h.mem_digitSigns _ (List.mem_append_left _ hc)) (by decide)
  rw [h.text_eq, ← List.append_assoc, List.takeWhile_append_of_pos hkept, List.dropWhile_append_of_pos hkept]
  cases fs with
  | nil => exact ⟨List.append_nil _, rfl⟩
  | cons c fs => exact ⟨List.append_nil _, rfl⟩

private theorem signOf_eq (s : Bool) (a : Magnitude) : signOf s a = [] ∨ signOf s a = ['-'] := by
  rw [signOf]
  split
  · exact .inr rfl
  · exact .inl rfl

/-- The parts of a decimal numeral. -/
theorem numeralParts_trimmed (s : Bool) (a : Magnitude) (places : Nat) :
    NumeralParts (signOf s a) (a.integral places) ((a.fraction places).rdropWhile (· == '0'))
      (signOf s a ++ a.trimmed places) := by
  refine ⟨by rw [a.trimmed_eq_append], signOf_eq s a, a.integral_ne_nil places, fun c hc => ?_⟩
  refine mem_digitSigns_of_isAsciiDigit ?_
  rcases List.mem_append.1 hc with hc | hc
  · exact a.isAsciiDigit_of_mem_integral places hc
  · exact a.isAsciiDigit_of_mem_fraction places ((List.rdropWhile_prefix _ _).subset hc)

/-- The parts of a numeral in another base: its fraction is what the integral part leaves. -/
theorem exists_numeralParts_radix {b : Nat} (two_le : 2 ≤ b) (le : b ≤ 36) (n : Nat) (s : Bool) (a : Magnitude) :
    ∃ r : Magnitude, (Double.finite false a).sub (.ofNat a.whole) = .finite false r ∧
      r.units = a.units % unitsPerOne ∧
      NumeralParts (signOf s a) (numeral b a.whole) ((fractionDigits b n (.finite false r)).map digitChar)
        (signOf s a ++ radixNumeral b n a) := by
  obtain ⟨r, hr, hunits⟩ := Double.sub_ofNat_whole a
  have hrest : r.units < unitsPerOne := hunits ▸ Nat.mod_lt _ Magnitude.unitsPerOne_pos
  have hfractions := fractionDigits_lt (by omega) le n hrest
  refine ⟨r, hr, hunits, ?_, signOf_eq s a, numeral_ne_nil b _, fun c hc => ?_⟩
  · rw [radixNumeral, hr]
    cases (fractionDigits b n (.finite false r)).map digitChar with
    | nil => exact congrArg (signOf s a ++ ·) (List.append_nil _).symm
    | cons d ds => rfl
  · rw [numeral, ← List.map_append] at hc
    obtain ⟨d, hd, rfl⟩ := List.mem_map.1 hc
    refine digitChar_mem (Nat.lt_of_lt_of_le ?_ le)
    rcases List.mem_append.1 hd with hd | hd
    · exact digits_lt two_le _ d hd
    · exact hfractions d hd

theorem exists_numeralParts {base fix : Int} {x : Double} (h : plainNumeral base fix x = .ok text) :
    ∃ minus ws fs, NumeralParts minus ws fs text := by
  unfold plainNumeral at h
  split at h
  · cases h
  · cases x with
    | nan =>
      cases h
      exact ⟨[], ['n', 'a', 'n'], [], rfl, .inl rfl, List.cons_ne_nil _ _, by simp [digitSigns]⟩
    | infinite s =>
      cases h
      cases s with
      | false => exact ⟨[], ['i', 'n', 'f'], [], rfl, .inl rfl, List.cons_ne_nil _ _, by simp [digitSigns]⟩
      | true => exact ⟨['-'], ['i', 'n', 'f'], [], rfl, .inr rfl, List.cons_ne_nil _ _, by simp [digitSigns]⟩
    | finite s a =>
      dsimp only at h
      split at h
      · split at h
        · cases h
          exact ⟨_, _, _, numeralParts_trimmed s a _⟩
        · cases h
      · cases h
        obtain ⟨r, -, -, hparts⟩ := exists_numeralParts_radix (b := base.toNat) (by omega) (by omega) fix.toNat s a
        exact ⟨_, _, _, hparts⟩

theorem hasParts_of_plainNumeral {base fix : Int} {x : Double} (h : plainNumeral base fix x = .ok text) :
    HasParts text := by
  obtain ⟨minus, ws, fs, hparts⟩ := exists_numeralParts h
  exact hparts.hasParts

/-- In every base there is a numeral, if decimals do not have too many places. -/
theorem exists_plainNumeral {b n : Nat} (two_le : 2 ≤ b) (le : b ≤ 36) {x : Double}
    (h : x.isFinite = true → b = 10 → n < 2 ^ 31) : ∃ text, plainNumeral b n x = .ok text := by
  unfold plainNumeral
  rw [if_neg (by omega)]
  cases x with
  | nan => exact ⟨_, rfl⟩
  | infinite s => exact ⟨_, rfl⟩
  | finite s a =>
    dsimp only
    split
    · rename_i hten
      rw [decimalPlaces_eq_ok (Int.natCast_nonneg _) (h rfl (by omega))]
      exact ⟨_, rfl⟩
    · exact ⟨_, rfl⟩

theorem shownNumeral_eq {base fix : Int} {x : Double} (h : plainNumeral base fix x = .ok text) :
    shownNumeral base fix x = .ok (displayForm text) := by
  rw [shownNumeral, h]
  rfl

/-- A numeral is split into two parts exactly. -/
private theorem RawNumeral.display_eq (h : HasParts text) : display text = .ok (displayForm text) := by
  obtain ⟨ws, fs, rfl, hfigures⟩ := h
  have hws : '.' ∉ ws := fun hc => (hfigures _ (List.mem_append_left _ hc)).ne_point rfl
  have hfs : '.' ∉ fs := fun hc => (hfigures _ (List.mem_append_right _ hc)).ne_point rfl
  have hkept : ∀ c ∈ ws, (c != '.') = true := fun c hc => bne_iff_ne.2 fun heq => hws (heq ▸ hc)
  cases fs with
  | nil =>
    rw [if_pos rfl, List.append_nil, display, if_neg hws, displayForm, List.takeWhile_eq_self_iff.2 hkept,
      List.dropWhile_eq_nil_iff.2 hkept, List.append_nil]
  | cons d ds =>
    have hsplit : (ws ++ '.' :: d :: ds).splitOn '.' = [ws, d :: ds] := by
      rw [List.splitOn_append_cons_self_of_not_mem hws, List.splitOn_eq_singleton hfs]
    have hpoint : '.' ∈ ws ++ '.' :: d :: ds := List.mem_append_right _ List.mem_cons_self
    rw [if_neg (List.cons_ne_nil d ds), display, if_pos hpoint, hsplit, displayForm,
      List.takeWhile_append_of_pos hkept, List.dropWhile_append_of_pos hkept]
    show .ok (rightAligned (grouped ws) ++ '.' :: d :: ds) =
      (.ok (rightAligned (grouped (ws ++ [])) ++ '.' :: d :: ds) : Except Halt (List Char))
    rw [List.append_nil]

end Parts

/-- Numerals for display are split as they are written. -/
theorem RawNumeral.shown_eq (base fix : Int) (x : Double) :
    shown base fix x = (shownNumeral base fix x).mapError NumeralError.halt := by
  rw [shown, plain_eq, shownNumeral]
  cases h : plainNumeral base fix x with
  | ok text => exact display_eq (hasParts_of_plainNumeral h)
  | error e => rfl

end DeskCalc
