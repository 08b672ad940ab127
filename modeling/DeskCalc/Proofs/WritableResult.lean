import Mathlib.Algebra.Group.Defs
import DeskCalc.CommandLine
import DeskCalc.Elementary.Platform
import DeskCalc.Proofs.Deliveries
import DeskCalc.Proofs.RawNumeral

/-!
# Results that can be written

The number of decimal places in the settings has no upper bound, but a decimal numeral has less than `2 ^ 31` of them.
So under some settings there are results that cannot be written: the finite ones in base ten, if `fix` is too large
(`Writable`).  Everything else can be written, so under most settings there is no such result
(`forall_writable_iff`).

On the command line an error escapes exactly if the value of the problem cannot be written.  In the window such a
result becomes the previous answer, while the text stays.  If the window takes outcomes up by itself, the display stays
too and the user is not told anything; if it is called by the calculation, the problem is shown again (`writes_iff`,
`not_written_one`).
-/

namespace DeskCalc

/-- The number can be written under the settings: it is not finite, or the base is not ten, or the number of decimal
places has a place in the format of decimals. -/
def Writable (c : Settings) (x : Double) : Prop :=
  x.isFinite = true → c.base = 10 → c.fix < 2 ^ 31

section

variable {c : Settings} {x : Double}

/-- What can be written is written. -/
theorem Writable.exists_numeral (h : Writable c x) : ∃ text, plainNumeral c.base c.fix x = .ok text :=
  exists_plainNumeral c.two_le_base c.base_le h

/-- What cannot be written has too many decimal places. -/
private theorem exists_places_of_not_writable (h : ¬Writable c x) :
    ∃ d, plainNumeral c.base c.fix x = .error (.places d) := by
  simp only [Writable, Classical.not_imp, Nat.not_lt] at h
  obtain ⟨hfinite, hten, hlarge⟩ := h
  rw [hten]
  have hplaces : 2 ^ 31 ≤ (c.fix : Int).toNat := hlarge
  exact exists_plainNumeral_error hplaces hfinite

/-- Exactly what can be written has a numeral, for every way to write it. -/
theorem exists_plainNumeral_iff : (∃ text, plainNumeral c.base c.fix x = .ok text) ↔ Writable c x := by
  refine ⟨fun ⟨text, htext⟩ => ?_, Writable.exists_numeral⟩
  by_contra h
  obtain ⟨d, hd⟩ := exists_places_of_not_writable h
  rw [htext] at hd
  cases hd

private theorem exists_plain_iff : (∃ text, RawNumeral.plain c.base c.fix x = .ok text) ↔ Writable c x := by
  simp only [RawNumeral.plain_eq, mapError_eq_ok_iff, exists_plainNumeral_iff]

theorem exists_shown_iff : (∃ text, RawNumeral.shown c.base c.fix x = .ok text) ↔ Writable c x := by
  simp only [RawNumeral.shown_eq, mapError_eq_ok_iff, shownNumeral]
  constructor
  · rintro ⟨text, htext⟩
    obtain ⟨plain, hplain, -⟩ := exists_of_map_eq_ok htext
    exact exists_plainNumeral_iff.1 ⟨plain, hplain⟩
  · intro h
    obtain ⟨text, htext⟩ := h.exists_numeral
    exact ⟨displayForm text, by rw [htext]; rfl⟩

/-- Under which settings every number can be written. -/
theorem forall_writable_iff : (∀ x, Writable c x) ↔ (c.base = 10 → c.fix < 2 ^ 31) :=
  ⟨fun h => h (.zero false) rfl, fun h _ _ => h⟩

end

/-! ### On the command line -/

namespace CommandLine

variable {fn : Elementary} {c : Settings} {problem : String}

/-- The value of a problem on the command line, where nothing has been calculated before it. -/
def value (fn : Elementary) (c : Settings) (problem : String) : Except Fault Double :=
  evaluate fn (.ofRadians c.radianMode) c.fix (.value (.zero false)) problem

/-- The run ends with one of the two exit statuses of an answer. -/
def Exits (r : CommandRun) : Prop :=
  ∃ status, status ≤ 1 ∧ r.ending = .exit status

private theorem answer_of_error {f : Fault} (h : value fn c problem = .error f) : Exits (answer fn c problem) := by
  unfold value at h
  rw [answer, h]
  cases f with
  | help usage => exact ⟨0, by decide, rfl⟩
  | _ => exact ⟨1, by decide, rfl⟩

theorem answer_of_ok {x : Double} {text : List Char} (h : value fn c problem = .ok x)
    (written : plainNumeral c.base c.fix x = .ok text) :
    answer fn c problem = ⟨lines [String.ofList (displayForm text)], [], .exit 0⟩ := by
  unfold value at h
  simp only [answer, h, shownNumeral_eq written]

private theorem answer_of_places {x : Double} {d : PlacesDefect} (h : value fn c problem = .ok x)
    (unwritten : plainNumeral c.base c.fix x = .error (.places d)) :
    answer fn c problem = ⟨"", [], .failure (.places d)⟩ := by
  have hshown : shownNumeral c.base c.fix x = .error (.places d) := by
    rw [shownNumeral, unwritten]
    rfl
  unfold value at h
  simp only [answer, h, hshown]

/-- No error escapes exactly if the value, if there is one, can be written. -/
private theorem exits_answer_iff : Exits (answer fn c problem) ↔ ∀ x, value fn c problem = .ok x → Writable c x := by
  cases h : value fn c problem with
  | error f => exact iff_of_true (answer_of_error h) nofun
  | ok x =>
    constructor
    · rintro ⟨status, -, hstatus⟩ y ⟨⟩
      by_contra hnot
      obtain ⟨d, hd⟩ := exists_places_of_not_writable hnot
      rw [answer_of_places h hd] at hstatus
      cases hstatus
    · intro hwritable
      obtain ⟨text, htext⟩ := (hwritable x rfl).exists_numeral
      rw [answer_of_ok h htext]
      exact ⟨0, by decide, rfl⟩

end CommandLine

/-! ### In the window -/

/-- The window shows the numeral of a number. -/
def Window.ShowsNumeral (w : Window) (x : Double) : Prop :=
  ∃ text, RawNumeral.plain w.settings.base w.settings.fix x = .ok text ∧ w.text = text ∧ w.display = text

section

variable [Host]

/-- A delivered result becomes the previous answer in any case.  It is shown if it can be written; otherwise the text
stays, and so does the display unless the window is called by the calculation. -/
private theorem Window.Taken.of_ok {w w' : Window} {problem : List Char} {x : Double} (h : w.Taken problem (.ok x) w') :
    w'.previous = some x ∧ (Writable w.settings x → w'.ShowsNumeral x) ∧
      (¬Writable w.settings x → w'.text = w.text ∧ (Host.handover = .queued → w'.display = w.display) ∧
        (Host.handover = .direct → w'.display = problem)) := by
  have hnot : ∀ {e}, plainNumeral w.settings.base w.settings.fix x = .error e → ¬Writable w.settings x := by
    intro e unwritten hwritable
    obtain ⟨text, htext⟩ := hwritable.exists_numeral
    rw [unwritten] at htext
    cases htext
  cases h with
  | result _ numeral written =>
    have hwritable : Writable w.settings x := exists_plainNumeral_iff.1 ⟨numeral, written⟩
    refine ⟨rfl, fun _ => ⟨numeral, ?_, rfl, rfl⟩, fun hunwritable => absurd hwritable hunwritable⟩
    show RawNumeral.plain w.settings.base w.settings.fix x = .ok numeral
    rw [RawNumeral.plain_eq, written]
    rfl
  | dropped _ e unwritten queued =>
    refine ⟨rfl, fun hwritable => absurd hwritable (hnot unwritten), fun _ => ⟨rfl, fun _ => rfl, fun direct => ?_⟩⟩
    cases queued.symm.trans direct
  | returned _ e unwritten direct =>
    refine ⟨rfl, fun hwritable => absurd hwritable (hnot unwritten), fun _ => ⟨rfl, fun queued => ?_, fun _ => rfl⟩⟩
    cases queued.symm.trans direct

/-- Under any settings, writing a result, answering a problem and delivering a result to the window succeed exactly for
the results that can be written; these are all results unless the base is ten and there are too many decimal places.  A
window that takes outcomes up by itself shows and tells nothing of a result that cannot be written. -/
theorem writes_iff (fn : Elementary) (c : Settings) :
    ((∀ x, Writable c x) ↔ (c.base = 10 → c.fix < 2 ^ 31)) ∧
      (∀ x, ((∃ text, RawNumeral.plain c.base c.fix x = .ok text) ↔ Writable c x) ∧
        ((∃ text, RawNumeral.shown c.base c.fix x = .ok text) ↔ Writable c x)) ∧
      (∀ problem, CommandLine.Exits (CommandLine.answer fn c problem) ↔
        ∀ x, CommandLine.value fn c problem = .ok x → Writable c x) ∧
      ∀ (d : Desktop) (j : Job) (x : Double), d.window.settings = c → j.outcome fn = .ok x →
        (d.deliver fn j).window.previous = some x ∧ (Writable c x → (d.deliver fn j).window.ShowsNumeral x) ∧
          (¬Writable c x → (d.deliver fn j).window.text = d.window.text ∧
            (Host.handover = .queued →
              (d.deliver fn j).window.display = d.window.display ∧ (d.deliver fn j).notices = d.notices) ∧
            (Host.handover = .direct → (d.deliver fn j).window.display = j.problem)) := by
  refine ⟨forall_writable_iff, fun x => ⟨exists_plain_iff, exists_shown_iff⟩,
    fun problem => CommandLine.exits_answer_iff, ?_⟩
  rintro d j x rfl houtcome
  have hnotices : Host.handover = .queued → (d.deliver fn j).notices = d.notices := by
    intro queued
    rw [Desktop.notices_deliver queued, houtcome]
    exact List.append_nil d.notices
  obtain ⟨w, notices, store, log, htaken, hdeliver⟩ := Desktop.exists_deliver fn d j
  rw [houtcome] at htaken
  rw [hdeliver] at hnotices ⊢
  obtain ⟨hprevious, hshown, hkept⟩ := htaken.of_ok
  refine ⟨hprevious, hshown, fun hnot => ?_⟩
  obtain ⟨htext, hqueued, hdirect⟩ := hkept hnot
  exact ⟨htext, fun queued => ⟨hqueued queued, hnotices queued⟩, hdirect⟩

end

/-- One with `2 ^ 31` decimal places.  The window that is waiting for it goes on showing that it waits. -/
theorem not_written_one :
    let host : Host := { Host.plain with handover := .queued }
    let c : Settings := ⟨2 ^ 31, 10, false, false, true, false, by decide, by decide⟩
    let d : Desktop := ⟨((Window.start c none).type ['1']).wait, [], ⟨"", []⟩, [], false, false, [], [], []⟩
    let one := Double.ofNat 1
    let j : Job := ⟨['1'], none, c⟩
    RawNumeral.plain c.base c.fix one = .error (.trap .unrepresentable) ∧
      RawNumeral.shown c.base c.fix one = .error (.trap .unrepresentable) ∧
      CommandLine.value .platform c (String.ofList ['1']) = .ok one ∧
      (CommandLine.answer .platform c (String.ofList ['1'])).ending = .failure (.places .beyondPrecision) ∧
      (d.deliver .platform j).window.previous = some one ∧ (d.deliver .platform j).window.text = ['1'] ∧
      (d.deliver .platform j).window.display = ['.', '.', '.'] := by
  intro host c d one j
  have hplain : plainNumeral c.base c.fix one = .error (.places .beyondPrecision) := by decide +kernel
  have hvalue : CommandLine.value .platform c (String.ofList ['1']) = .ok one := by decide +kernel
  refine ⟨?_, ?_, hvalue, ?_, by decide +kernel, by decide +kernel, by decide +kernel⟩
  · rw [RawNumeral.plain_eq, hplain]
    rfl
  · rw [RawNumeral.shown_eq, shownNumeral, hplain]
    rfl
  · rw [CommandLine.answer_of_places hvalue hplain]

end DeskCalc
