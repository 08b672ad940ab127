import Mathlib.Algebra.Group.Defs
import DeskCalc.Proofs.Deliveries
import DeskCalc.Proofs.FractionDigits
import DeskCalc.Proofs.Reevaluation

/-!
# Calculating a result again

A result is written without separators, so that the text of the window can be calculated again (`Session.Repeats`).
In base ten this works exactly for the finite results: the numeral has the value of the result, if the number of
decimal places has not changed since the calculation was started.  Infinities and NaN are written as words that are no
names, and numerals in other bases are read as decimal ones.  So ten is the only base in which exactly the finite
results are repeated (`Session.repeatsFinite_iff`).
-/

namespace DeskCalc

/-! ### Equal numbers -/

namespace Double

variable {x y z : Double}

private theorem numEq_iff : x.numEq y = true ↔ ∃ k, x.key = some k ∧ y.key = some k := by
  unfold numEq
  cases x.key with
  | none => exact iff_of_false Bool.false_ne_true (by rintro ⟨k, hk, -⟩; cases hk)
  | some a =>
    cases y.key with
    | none => exact iff_of_false Bool.false_ne_true (by rintro ⟨k, -, hk⟩; cases hk)
    | some b =>
      constructor
      · intro h
        exact ⟨a, rfl, congrArg some (beq_iff_eq.1 h).symm⟩
      · rintro ⟨k, ha, hb⟩
        cases ha
        cases hb
        exact beq_self_eq_true a

private theorem numEq_symm (h : x.numEq y = true) : y.numEq x = true := by
  obtain ⟨k, hx, hy⟩ := numEq_iff.1 h
  exact numEq_iff.2 ⟨k, hy, hx⟩

private theorem numEq_trans (h : x.numEq y = true) (h' : y.numEq z = true) : x.numEq z = true := by
  obtain ⟨k, hx, hy⟩ := numEq_iff.1 h
  obtain ⟨k', hy', hz⟩ := numEq_iff.1 h'
  rw [hy] at hy'
  cases hy'
  exact numEq_iff.2 ⟨k, hx, hz⟩

/-- Equal as numbers, or both no number. -/
def Same (x y : Double) : Prop :=
  x.numEq y = true ∨ x.isNaN = true ∧ y.isNaN = true

/-- Equal doubles have one magnitude, and the sign of it unless it is zero. -/
private theorem eq_of_signedUnits_eq {s t : Bool} {a b : Magnitude} (h : signedUnits s a = signedUnits t b) :
    a = b ∧ (a.mantissa = 0 ∨ s = t) := by
  have hunits : a.units = b.units := by
    unfold signedUnits at h
    split at h <;> split at h <;> omega
  obtain rfl := Magnitude.eq_of_units_eq hunits
  refine ⟨rfl, ?_⟩
  by_cases hzero : a.mantissa = 0
  · exact .inl hzero
  · have hne : a.units ≠ 0 := mt a.units_eq_zero_iff.1 hzero
    right
    unfold signedUnits at h
    cases s <;> cases t <;> simp at h ⊢ <;> omega

/-- No finite number is as far from zero as the infinities. -/
private theorem key_infinite_ne (s t : Bool) (a : Magnitude) : (infinite s).key ≠ (finite t a).key := by
  have hlt := a.units_lt_infinite
  generalize hbig : 2 ^ 2098 = big at hlt
  intro h
  unfold key signedUnits at h
  rw [hbig] at h
  cases s <;> cases t <;> simp at h <;> omega

/-- Numbers that equal a finite one are written as it is. -/
private theorem plainNumeral_congr (hy : y.isFinite = true) (h : x.numEq y = true) (base fix : Int) :
    plainNumeral base fix x = plainNumeral base fix y := by
  obtain ⟨k, hx, hkey⟩ := numEq_iff.1 h
  have heq : x.key = y.key := hx.trans hkey.symm
  cases y with
  | nan => cases hy
  | infinite t => cases hy
  | finite t b =>
    cases x with
    | nan => cases heq
    | infinite s => exact absurd heq (key_infinite_ne s t b)
    | finite s a =>
      obtain ⟨rfl, hsign⟩ := eq_of_signedUnits_eq (Option.some.inj heq)
      have hsigns : signOf s a = signOf t a := by
        rcases hsign with hzero | rfl
        · simp [signOf, hzero]
        · rfl
      simp only [plainNumeral, hsigns]

end Double

/-! ### Words that are no names -/

section Words

variable {fn : Elementary} {mode : AngleMode} {fix : Int} {previous : PreviousAnswer}

private theorem scan_of_readToken_error {c : Char} {cs : List Char} {f : Fault}
    (h : readToken previous c cs = .error f) : scan previous (c :: cs) = .error f := by
  rw [scan]
  split
  · rename_i heq
    rw [h] at heq
    cases heq
    rfl
  · rename_i heq
    rw [h] at heq
    cases heq

/-- A text that cannot be scanned has no value. -/
private theorem evaluate_ne_ok_of_scan {text : List Char} {f : Fault} (clean : removeBlanks text = text)
    (closed : closeParentheses text = .ok text) (hscan : scan previous text = .error f) (v : Double) :
    evaluate fn mode fix previous (String.ofList text) ≠ .ok v := by
  have hraw : rawValue fn mode previous text = .error f := by
    simp only [rawValue, lex, hscan, closed, bind, Except.bind]
    rfl
  intro h
  rw [evaluate, String.toList_ofList, clean, cleanedValue] at h
  split at h
  · cases h
  · split at h
    · rename_i hempty
      rw [List.isEmpty_iff.1 hempty, scan] at hscan
      cases hscan
    · rw [hraw] at h
      cases h

/-- The word for a result that is not finite has no value. -/
private theorem evaluate_word_ne_ok {base places : Int} {r : Double} (hr : r.isFinite = false) {text : List Char}
    (written : plainNumeral base places r = .ok text) (v : Double) :
    evaluate fn mode fix previous (String.ofList text) ≠ .ok v := by
  -- no name begins with either word, so that the scanner stops at its first letter
  have hinf : scan previous ['i', 'n', 'f'] = .error (.unknownName "inf") := scan_of_readToken_error rfl
  have hsplit : text = ['n', 'a', 'n'] ∨ text = ['i', 'n', 'f'] ∨ text = ['-', 'i', 'n', 'f'] := by
    unfold plainNumeral at written
    split at written
    · cases written
    · cases r with
      | nan =>
        cases written
        exact .inl rfl
      | infinite s =>
        cases s <;> cases written
        · exact .inr (.inl rfl)
        · exact .inr (.inr rfl)
      | finite s a => cases hr
  rcases hsplit with rfl | rfl | rfl
  · exact evaluate_ne_ok_of_scan (by decide) rfl (scan_of_readToken_error (f := .unknownName "nan") rfl) v
  · exact evaluate_ne_ok_of_scan (by decide) rfl hinf v
  · refine evaluate_ne_ok_of_scan (f := .unknownName "inf") (by decide) rfl ?_ v
    have hminus : readToken previous '-' ['i', 'n', 'f'] = .ok (.operator .subtract, ['i', 'n', 'f']) := rfl
    rw [scan_cons hminus, hinf]
    rfl

end Words

/-! ### Whole numbers -/

/-- A whole number is not changed by rounding. -/
private theorem Double.roundTo_of_isWhole {a : Magnitude} (h : a.isWhole = true) (places : Nat) (s : Bool) :
    roundTo places (finite s a) = finite s a := by
  rcases Nat.lt_or_ge 323 places with hlarge | hsmall
  · exact roundTo_of_lt hlarge s a
  · have hunits : a.whole * Magnitude.unitsPerOne = a.units :=
      Nat.div_mul_cancel (Nat.dvd_of_mod_eq_zero (beq_iff_eq.1 h))
    have hswap : a.units * 10 ^ places = a.whole * 10 ^ places * Magnitude.unitsPerOne := by
      rw [← hunits, Nat.mul_right_comm]
    -- the units are a multiple of one, so both roundings are exact
    have hplaces : a.atPlaces places = a.whole * 10 ^ places := by
      rw [Magnitude.atPlaces, hswap, roundDiv_mul_self Magnitude.unitsPerOne_pos]
    rw [roundTo_of_le hsmall, hplaces]
    refine ofRatio_eq ?_ s
    rw [← hswap]
    exact Magnitude.nearest?_units_mul (Nat.pow_pos (by decide)) a

/-- Digits are evaluated to the whole number they denote. -/
private theorem evaluate_digits {fn : Elementary} {mode : AngleMode} {previous : PreviousAnswer} (fix : Nat)
    {ds : List Char} (ne_nil : ds ≠ []) (hds : ∀ c ∈ ds, isAsciiDigit c = true) {a : Magnitude}
    (hvalue : literalValue ds = .finite false a) (h : a.isWhole = true) :
    evaluate fn mode fix previous (String.ofList ds) = .ok (.finite false a) := by
  let l := Literal.ofDigits ds [] ne_nil hds nofun
  have htext : l.text = ds := List.append_nil ds
  have hround : roundToPlaces (.finite false a) fix = .ok (.finite false a) := by
    rw [roundToPlaces_eq (Int.natCast_nonneg fix), Int.toNat_natCast, Double.roundTo_of_isWhole h]
  have hsigned : evaluate fn mode fix previous (String.ofList l.text) =
      (roundToPlaces ((literalValue l.text).signed false) fix).mapError .setting := l.evaluate_signed false fix
  rw [htext, hvalue] at hsigned
  rw [hsigned]
  exact congrArg (Except.mapError Fault.setting) hround

/-! ### Pressing enter again -/

namespace Session

variable {fn : Elementary} {s : Session} {i : Nat} {j : Job} {r : Double}

/-- A waiting calculation has a result, which can be written under the settings in force. -/
structure Yields (fn : Elementary) (s : Session) (i : Nat) (j : Job) (r : Double) : Prop where
  job_eq : s.desktop.waiting[i]? = some j
  outcome_eq : j.outcome fn = .ok r
  written : ∃ text, plainNumeral s.desktop.window.settings.base s.desktop.window.settings.fix r = .ok text

/-- The number of decimal places of the start leaves a result as it is. -/
private theorem Yields.roundTo_eq (h : s.Yields fn i j r) : r.roundTo j.settings.fix = r := by
  have hround := roundTo_of_evaluate (Int.natCast_nonneg j.settings.fix) h.outcome_eq
  rwa [Int.toNat_natCast] at hround

section

variable [Host]

/-- The session comes from events after the window was opened. -/
def Reachable (fn : Elementary) (s : Session) : Prop :=
  ∃ c overrides store log es, s = (opening c overrides store log).run fn es

/-- The session after enter is pressed. -/
def again (fn : Elementary) (s : Session) : Session :=
  s.react fn (.press Label.enter (by decide))

/-- If enter is pressed, the result is delivered again and the text stays. -/
structure Repeats (fn : Elementary) (s : Session) (r : Double) : Prop where
  exists_same : ∃ j v, (s.again fn).desktop.waiting = [j] ∧ j.outcome fn = .ok v ∧ v.Same r
  text_eq : ((s.again fn).react fn (.deliver 0)).desktop.window.text = s.desktop.window.text

theorem Reachable.single (h : s.Reachable fn) : s.Single := by
  obtain ⟨c, overrides, store, log, es, rfl⟩ := h
  exact (single_opening c overrides store log).run es

/-- The window shows a delivered result, and nothing waits. -/
private theorem Yields.react_deliver (h : s.Yields fn i j r) (single : s.Single) {text : List Char}
    (written : plainNumeral s.desktop.window.settings.base s.desktop.window.settings.fix r = .ok text) :
    (s.react fn (.deliver i)).desktop.waiting = [] ∧
      (s.react fn (.deliver i)).desktop.window.job = ⟨text, some r, s.desktop.window.settings⟩ := by
  refine ⟨single.waiting_deliver h.job_eq, ?_⟩
  obtain ⟨w, notices, store, log, htaken, hdeliver⟩ := Desktop.exists_deliverAt fn h.job_eq
  have hdesktop : (s.react fn (.deliver i)).desktop = _ := hdeliver
  rw [hdesktop]
  show w.job = _
  rw [h.outcome_eq] at htaken
  cases htaken with
  | result x numeral hnumeral =>
    rw [hnumeral] at written
    cases written
    rfl
  | dropped x e hunwritten | returned x e hunwritten =>
    rw [hunwritten] at written
    cases written

/-- What is repeated is the value of the text. -/
private theorem Repeats.exists_outcome (h : s.Repeats fn r) (single : s.Single) (hwaiting : s.desktop.waiting = []) :
    ∃ v, s.desktop.window.job.outcome fn = .ok v ∧ v.Same r := by
  obtain ⟨j, v, hj, hv, hsame⟩ := h.exists_same
  have hstart : (s.again fn).desktop.waiting = [s.desktop.window.job] := starts_of_label single hwaiting rfl
  rw [hstart] at hj
  cases hj
  exact ⟨v, hv, hsame⟩

/-- A text with the value of the result is repeated if it is the numeral of the result. -/
private theorem repeats_of_outcome (single : s.Single) (hwaiting : s.desktop.waiting = []) (hr : r.isFinite = true)
    (written : plainNumeral s.desktop.window.settings.base s.desktop.window.settings.fix r =
      .ok s.desktop.window.text)
    {v : Double} (hv : s.desktop.window.job.outcome fn = .ok v) (hsame : v.numEq r = true) : s.Repeats fn r := by
  have hstart : (s.again fn).desktop.waiting = [s.desktop.window.job] := starts_of_label single hwaiting rfl
  -- only a delivery changes the text, and the numeral of an equal number is the one that is shown already
  have hsettings : (s.again fn).desktop.window.settings = s.desktop.window.settings := by
    have idle : s.desktop.window.active = false := Bool.eq_false_iff.2 (mt single.active_iff.1 (not_not_intro hwaiting))
    have hdesktop : (s.again fn).desktop = s.desktop.calculate fn := rfl
    rw [hdesktop, Desktop.calculate_of_idle s.held idle]
    rfl
  have hnumeral : plainNumeral (s.again fn).desktop.window.settings.base (s.again fn).desktop.window.settings.fix v =
      .ok s.desktop.window.text := by
    rw [hsettings, Double.plainNumeral_congr hr hsame, written]
  have hyields : (s.again fn).Yields fn 0 s.desktop.window.job v := by
    refine ⟨?_, hv, _, hnumeral⟩
    rw [hstart]
    rfl
  exact ⟨⟨_, v, hstart, hv, .inl hsame⟩, congrArg Job.problem (hyields.react_deliver (single.react _) hnumeral).2⟩

/-- A result that is not finite is never repeated. -/
private theorem Yields.not_repeats (h : s.Yields fn i j r) (single : s.Single) (hr : r.isFinite = false) :
    ¬(s.react fn (.deliver i)).Repeats fn r := by
  intro hrepeats
  obtain ⟨text, written⟩ := h.written
  obtain ⟨hwaiting, hjob⟩ := h.react_deliver single written
  obtain ⟨v, hv, -⟩ := hrepeats.exists_outcome (single.react _) hwaiting
  rw [hjob] at hv
  exact evaluate_word_ne_ok hr written v hv

/-- The value of a text under the settings in force, with the result as the previous answer. -/
def valueAfter (fn : Elementary) (s : Session) (r : Double) (text : List Char) : Except Fault Double :=
  Job.outcome fn ⟨text, some r, s.desktop.window.settings⟩

/-- A finite result is repeated exactly if its numeral has its value. -/
private theorem Yields.repeats_iff_value (h : s.Yields fn i j r) (single : s.Single) (hr : r.isFinite = true)
    {text : List Char}
    (written : plainNumeral s.desktop.window.settings.base s.desktop.window.settings.fix r = .ok text) :
    (s.react fn (.deliver i)).Repeats fn r ↔ ∃ v, s.valueAfter fn r text = .ok v ∧ v.numEq r = true := by
  obtain ⟨hwaiting, hjob⟩ := h.react_deliver single written
  have houtcome : (s.react fn (.deliver i)).desktop.window.job.outcome fn = s.valueAfter fn r text := by
    rw [hjob, valueAfter]
  constructor
  · intro hrepeats
    obtain ⟨v, hv, hsame⟩ := hrepeats.exists_outcome (single.react _) hwaiting
    refine ⟨v, houtcome ▸ hv, hsame.resolve_right ?_⟩
    rintro ⟨-, hnan⟩
    cases r with
    | finite negative a => cases hnan
    | _ => cases hr
  · rintro ⟨v, hv, hvalue⟩
    have hsettings : (s.react fn (.deliver i)).desktop.window.settings = s.desktop.window.settings :=
      congrArg Job.settings hjob
    have htext : (s.react fn (.deliver i)).desktop.window.text = text := congrArg Job.problem hjob
    refine repeats_of_outcome (single.react _) hwaiting hr ?_ (houtcome.trans hv) hvalue
    rw [hsettings, htext, written]

/-- In base ten a finite result is repeated exactly if the number of decimal places in force leaves it as it is. -/
private theorem Yields.repeats_iff_roundTo (h : s.Yields fn i j r) (single : s.Single)
    (base_eq : s.desktop.window.settings.base = 10) (hr : r.isFinite = true) :
    (s.react fn (.deliver i)).Repeats fn r ↔ (r.roundTo s.desktop.window.settings.fix).numEq r = true := by
  obtain ⟨text, written⟩ := h.written
  have hwritten : plainNumeral 10 s.desktop.window.settings.fix r = .ok text := by
    rw [base_eq] at written
    exact written
  have hplaces : Int.toNat s.desktop.window.settings.fix < 2 ^ 31 := by
    by_contra hlarge
    obtain ⟨d, hd⟩ := exists_plainNumeral_error (Nat.not_lt.1 hlarge) hr
    rw [hwritten] at hd
    cases hd
  obtain ⟨text', htext', heval⟩ := exists_evaluate_numeral fn (Int.natCast_nonneg _) hplaces hr
  rw [hwritten] at htext'
  cases htext'
  obtain ⟨v, hv, hround⟩ := heval (.ofRadians s.desktop.window.settings.radianMode) (.value r)
  have hvalue : s.valueAfter fn r text = .ok v := hv
  rw [h.repeats_iff_value single hr written]
  constructor
  · rintro ⟨v', hv', hsame⟩
    rw [hvalue] at hv'
    cases hv'
    exact Double.numEq_trans (Double.numEq_symm hround) hsame
  · exact fun hsame => ⟨v, hvalue, Double.numEq_trans hround hsame⟩

end

/-! ### Other bases -/

/-- The magnitude of ten. -/
def ten : Magnitude :=
  ⟨10 * 2 ^ 49, 1025, by decide, by decide, by decide⟩

/-- Whether digits denote a whole number other than ten. -/
def missesTen (ds : List Char) : Bool :=
  !ds.isEmpty && ds.all isAsciiDigit &&
    match literalValue ds with
    | .finite false a => a.isWhole && !(Double.finite false a).numEq (.finite false ten)
    | _ => false

private theorem plainNumeral_ten {b : Nat} (two_le : 2 ≤ b) (le : b ≤ 36) (ne : b ≠ 10) (fix : Int) :
    plainNumeral b fix (.finite false ten) = .ok (numeral b 10) := by
  have hwhole : ten.whole = 10 := by decide +kernel
  have hzero : ((Double.finite false ten).sub (Double.ofNat 10)).isZero = true := by decide +kernel
  rw [plainNumeral, if_neg (by omega)]
  simp only [if_neg (show ¬(b : Int) = 10 by omega), Int.toNat_natCast, radixNumeral, hwhole,
    (fractionDigits_eq_nil_iff _ _ _).2 (.inr hzero)]
  rfl

/-- Digits that do not denote ten are not evaluated to ten. -/
private theorem numEq_ten_of_missesTen {ds : List Char} (hds : missesTen ds = true) {mode : AngleMode} {fix : Nat}
    {previous : PreviousAnswer} {v : Double} (h : evaluate fn mode fix previous (String.ofList ds) = .ok v) :
    v.numEq (.finite false ten) = false := by
  simp only [missesTen, Bool.and_eq_true, Bool.not_eq_true', List.all_eq_true] at hds
  obtain ⟨⟨hne, hdigits⟩, hvalue⟩ := hds
  split at hvalue
  · rename_i a ha
    obtain ⟨hwhole, hten⟩ := Bool.and_eq_true_iff.1 hvalue
    rw [evaluate_digits fix (fun heq => by simp [heq] at hne) hdigits ha hwhole] at h
    cases h
    simpa using hten
  · cases hvalue

/-- The numeral of ten in another base does not have the value ten. -/
private theorem numEq_ten_of_evaluate {b : Nat} (two_le : 2 ≤ b) (ne : b ≠ 10) {mode : AngleMode} {fix : Nat}
    {previous : PreviousAnswer} {v : Double}
    (h : evaluate fn mode fix previous (String.ofList (numeral b 10)) = .ok v) :
    v.numEq (.finite false ten) = false := by
  -- in bases above ten the numeral is the letter `a`, which is no name; below there are eight bases to look at
  rcases Nat.lt_or_gt_of_ne ne with hlt | hgt
  · have hall : ∀ b : Fin 10, 2 ≤ b.val → missesTen (numeral b 10) = true := by decide +kernel
    exact numEq_ten_of_missesTen (hall ⟨b, hlt⟩ two_le) h
  · have hnumeral : numeral b 10 = ['a'] := by
      rw [numeral, digits_of_lt hgt]
      rfl
    rw [hnumeral] at h
    exact absurd h (evaluate_ne_ok_of_scan (by decide) rfl (scan_of_readToken_error (f := .unknownName "a") rfl) v)

section

variable [Host]

/-- The window is opened, and ten is calculated. -/
def calculatingTen (fn : Elementary) (c : Settings) : Session :=
  (opening c [] ⟨"", []⟩ []).run fn
    [.press ['1'] (by decide), .press ['0'] (by decide), .press Label.enter (by decide)]

private theorem yields_calculatingTen (c : Settings) (ne : c.base ≠ 10) :
    (calculatingTen fn c).Yields fn 0 ⟨['1', '0'], none, c⟩ (.finite false ten) where
  job_eq := rfl
  outcome_eq := by
    have hne : ['1', '0'] ≠ [] := List.cons_ne_nil _ _
    have hdigits : ∀ c ∈ ['1', '0'], isAsciiDigit c = true := List.all_eq_true.1 rfl
    have hvalue : literalValue ['1', '0'] = .finite false ten := by decide +kernel
    exact evaluate_digits c.fix hne hdigits hvalue (by decide +kernel)
  written := ⟨_, plainNumeral_ten c.two_le_base c.base_le ne c.fix⟩

/-- In another base than ten the result ten is not repeated. -/
private theorem not_repeats_ten (c : Settings) (ne : c.base ≠ 10) :
    ¬((calculatingTen fn c).react fn (.deliver 0)).Repeats fn (.finite false ten) := by
  have single : (calculatingTen fn c).Single := (single_opening c [] ⟨"", []⟩ []).run _
  have written := plainNumeral_ten c.two_le_base c.base_le ne c.fix
  rw [(yields_calculatingTen c ne).repeats_iff_value single rfl written]
  rintro ⟨v, hv, hsame⟩
  rw [numEq_ten_of_evaluate c.two_le_base ne hv] at hsame
  cases hsame

/-- Under the settings exactly the finite results are repeated, as long as the number of decimal places is that of the
start of the calculation. -/
def RepeatsFinite (fn : Elementary) (c : Settings) : Prop :=
  ∀ (s : Session) (i : Nat) (j : Job) (r : Double), s.Reachable fn → s.Yields fn i j r →
    s.desktop.window.settings = c → j.settings.fix = c.fix →
      ((s.react fn (.deliver i)).Repeats fn r ↔ r.isFinite = true)

theorem repeatsFinite_iff (fn : Elementary) (c : Settings) : RepeatsFinite fn c ↔ c.base = 10 := by
  constructor
  · intro h
    by_contra ne
    have hten := h (calculatingTen fn c) 0 _ _ ⟨c, [], _, [], _, rfl⟩ (yields_calculatingTen c ne) rfl rfl
    exact not_repeats_ten c ne (hten.2 rfl)
  · intro base_eq s i j r hs hyields hsettings hfix
    cases hr : r.isFinite with
    | false => exact iff_of_false (hyields.not_repeats hs.single hr) Bool.false_ne_true
    | true =>
      refine iff_of_true ((hyields.repeats_iff_roundTo hs.single (hsettings ▸ base_eq) hr).2 ?_) rfl
      rw [hsettings, ← hfix, hyields.roundTo_eq]
      exact Double.numEq_self hr

/-- In base ten, and in no other base, exactly the finite results are repeated.  Results that are not finite never are.
In any base a finite result is repeated exactly if its numeral has its value; in base ten that is so exactly if the
number of decimal places in force leaves it as it is. -/
theorem repeats_finite_results (fn : Elementary) :
    (∀ c, RepeatsFinite fn c ↔ c.base = 10) ∧
      ∀ (s : Session) (i : Nat) (j : Job) (r : Double), s.Reachable fn → s.Yields fn i j r →
        (r.isFinite = false → ¬(s.react fn (.deliver i)).Repeats fn r) ∧
          (r.isFinite = true → ∀ text,
            plainNumeral s.desktop.window.settings.base s.desktop.window.settings.fix r = .ok text →
              ((s.react fn (.deliver i)).Repeats fn r ↔ ∃ v, s.valueAfter fn r text = .ok v ∧ v.numEq r = true)) ∧
          (r.isFinite = true → s.desktop.window.settings.base = 10 →
            ((s.react fn (.deliver i)).Repeats fn r ↔
              (r.roundTo s.desktop.window.settings.fix).numEq r = true)) := by
  refine ⟨repeatsFinite_iff fn, fun s i j r hs hyields => ⟨hyields.not_repeats hs.single, ?_, ?_⟩⟩
  · exact fun hr text written => hyields.repeats_iff_value hs.single hr written
  · exact fun hr base_eq => hyields.repeats_iff_roundTo hs.single base_eq hr

end

/-- Three in base two is written `11`, which is eleven when enter is pressed again. -/
theorem eleven_after_three :
    let c : Settings := ⟨10, 2, false, false, true, false, by decide, by decide⟩
    let s := (opening c [] ⟨"", []⟩ []).run .platform [.press ['3'] (by decide), .press Label.enter (by decide)]
    let shown := s.react .platform (.deliver 0)
    (∃ j, s.Yields .platform 0 j (.ofBits 0x4008000000000000)) ∧ shown.desktop.window.text = ['1', '1'] ∧
      ((shown.again .platform).react .platform (.deliver 0)).desktop.window.previous =
        some (.ofBits 0x4026000000000000) ∧
      ¬shown.Repeats .platform (.ofBits 0x4008000000000000) := by
  intro c s shown
  have htext : shown.desktop.window.text = ['1', '1'] := by decide +kernel
  have hagain : ((shown.again .platform).react .platform (.deliver 0)).desktop.window.text =
    ['1', '0', '1', '1'] := by decide +kernel
  have hprevious : ((shown.again .platform).react .platform (.deliver 0)).desktop.window.previous =
    some (.ofBits 0x4026000000000000) := by decide +kernel
  refine ⟨⟨⟨['3'], none, c⟩, rfl, by decide +kernel, ['1', '1'], by decide +kernel⟩, htext, hprevious, fun h => ?_⟩
  have hstays := h.text_eq
  rw [hagain, htext] at hstays
  exact absurd hstays (by decide)

end Session

end DeskCalc
