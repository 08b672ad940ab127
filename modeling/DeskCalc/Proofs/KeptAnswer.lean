import Mathlib.Algebra.Group.Defs
import DeskCalc.Elementary.Platform
import DeskCalc.Proofs.Deliveries
import DeskCalc.Proofs.SettingsUpkeep
import DeskCalc.Proofs.WrittenDouble

/-!
# The kept answer

Every result is written to the file of the answer, and read from there as it was (`Files.loadAnswer_of_saveAnswer`).
Nothing else that happens in a session touches this file.  So as long as every result can be written, the file holds the
previous answer of the window at all times (`Session.holdsAnswer_run`), and a later session begins with it, whatever the
file was at first.

A result that cannot be written is the previous answer of the window all the same, and only the log tells about it
(`Desktop.deliver_of_unsaved`).
-/

namespace DeskCalc

/-! ### The file -/

/-- One blank at the end is dropped. -/
private theorem stripBy_append_blank {p : Char → Bool} {s : List Char} (h : ∀ c ∈ s, p c = false) {b : Char}
    (hb : p b = true) : stripBy p (s ++ [b]) = s := by
  have hrev : ∀ c ∈ s.reverse, p c = false := fun c hc => h c (List.mem_reverse.1 hc)
  cases s with
  | nil => simp [stripBy, hb]
  | cons c cs =>
    have hfront : (c :: cs ++ [b]).dropWhile p = c :: cs ++ [b] := by
      rw [List.cons_append, List.dropWhile_cons_of_neg (by simp [h c List.mem_cons_self])]
    rw [stripBy, hfront, List.reverse_append, List.reverse_singleton, List.singleton_append,
      List.dropWhile_cons_of_pos hb, dropWhile_eq_self hrev, List.reverse_reverse]

namespace Files

variable {s t : Store} {folder p : StorePath} {x : Double}

/-- The answer depends on nothing but its file. -/
private theorem loadAnswer_congr (h : t.find? (answerPath folder) = s.find? (answerPath folder)) :
    loadAnswer t folder = loadAnswer s folder := by
  have hnone : ∀ u : Store, u.find? (answerPath folder) = none → loadAnswer u folder = none := by
    intro u hu
    rw [loadAnswer, Store.read, hu]
    cases u.isBlocked (answerPath folder) <;> rfl
  cases hs : s.find? (answerPath folder) with
  | none => rw [hnone s hs, hnone t (h.trans hs)]
  | some entry =>
    rw [loadAnswer, loadAnswer, Store.read, Store.read, hs, h.trans hs]
    cases entry <;> rfl

private theorem loadAnswer_put (hne : answerPath folder ≠ p) (entry : StoreEntry) :
    loadAnswer (s.put p entry) folder = loadAnswer s folder :=
  loadAnswer_congr (by rw [Store.find?_put, if_neg hne])

private theorem loadAnswer_of_saveSettings {entries : List (Text × Json)} (h : saveSettings s entries = .ok t) :
    loadAnswer t cacheFolder = loadAnswer s cacheFolder := by
  unfold saveSettings at h
  split at h
  · rename_i saved hwrite
    cases h
    rw [Store.eq_put_of_write hwrite]
    exact loadAnswer_put (by decide) _
  · cases h

/-- An answer is loaded as it was saved. -/
theorem loadAnswer_of_saveAnswer (h : saveAnswer s folder x = .ok t) : loadAnswer t folder = some x := by
  obtain ⟨made, -, rfl⟩ := exists_of_saveAnswer h
  have hchars : IsAscii Double.textChars := by decide
  have hblank : ∀ c ∈ x.text, isBlank c = false := by
    intro c hc
    have hall : Double.textChars.all (fun c => decide (isBlank c = false)) = true := by decide
    exact of_decide_eq_true (List.all_eq_true.1 hall c (Double.mem_textChars_of_mem_text hc))
  have hascii : IsAscii (x.text ++ ['\n']) :=
    IsAscii.append (fun c hc => hchars c (Double.mem_textChars_of_mem_text hc)) (by decide)
  have hstrip : strip (x.text ++ ['\n']) = x.text := stripBy_append_blank hblank (by decide)
  rw [loadAnswer, Store.read_put]
  dsimp only
  rw [answerText, Utf8.decode_encode hascii]
  dsimp only
  rw [hstrip, Double.readDouble_text]

end Files

/-! ### Results -/

namespace Desktop

variable {fn : Elementary} {d : Desktop}

/-- The desktop with another store and another log. -/
def withFiles (d : Desktop) (s : Store) (log : List LogEntry) : Desktop :=
  { d with store := s, log := log }

private theorem keepAnswer_of_saved {x : Double} {t : Store}
    (saved : Files.saveAnswer d.store Files.cacheFolder x = .ok t) :
    d.keepAnswer x = { d with window := d.window.receive x, store := t } := by
  rw [keepAnswer, saved]
  rfl

private theorem keepAnswer_of_unsaved {x : Double} {entry : LogEntry}
    (unsaved : Files.saveAnswer d.store Files.cacheFolder x = .error entry) :
    d.keepAnswer x = { d with window := d.window.receive x, log := d.log ++ [entry] } := by
  rw [keepAnswer, unsaved]
  rfl

private theorem deliverAt_eq [Host] {i : Nat} {j : Job} (h : d.waiting[i]? = some j) :
    d.deliverAt fn i = { d with waiting := d.waiting.eraseIdx i }.deliver fn j := by
  rw [deliverAt, h]

/-- A window begins with the answer in the file. -/
private theorem previous_of_start [Host] {store : Store} {overrides : List (Text × Json)}
    (h : (start store overrides).2 = .ok d) : d.window.previous = Files.loadAnswer store Files.cacheFolder := by
  obtain ⟨c, -, rfl⟩ := exists_of_map_eq_ok h
  rfl

/-- A result is loaded from its file after it has been delivered, and after a fault what was there before it. -/
private theorem loadAnswer_deliver [Host] {j : Job}
    (writes : ∀ x, j.outcome fn = .ok x → ∃ t, Files.saveAnswer d.store Files.cacheFolder x = .ok t) :
    Files.loadAnswer (d.deliver fn j).store Files.cacheFolder =
      (j.outcome fn).toOption.or (Files.loadAnswer d.store Files.cacheFolder) := by
  unfold deliver
  cases hx : j.outcome fn with
  | ok x =>
    obtain ⟨t, saved⟩ := writes x hx
    simp only [showResult, keepAnswer_of_saved saved]
    split
    · exact Files.loadAnswer_of_saveAnswer saved
    · split <;> exact Files.loadAnswer_of_saveAnswer saved
  | error f => cases f <;> rfl

theorem previous_deliver [Host] (fn : Elementary) (d : Desktop) (j : Job) :
    (d.deliver fn j).window.previous = (j.outcome fn).toOption.or d.window.previous := by
  obtain ⟨w, notices, store, log, htaken, h⟩ := exists_deliver fn d j
  rw [h]
  exact htaken.previous_eq

/-- An answer that cannot be kept in its file leaves an entry in the log, and everything but the store is as if it could
be. -/
theorem deliver_of_unsaved [Host] {j : Job} {x : Double} (hx : j.outcome fn = .ok x) {entry : LogEntry}
    (unsaved : Files.saveAnswer d.store Files.cacheFolder x = .error entry) {s t : Store}
    (saved : Files.saveAnswer s Files.cacheFolder x = .ok t) :
    ∃ rest, ((d.withFiles s d.log).deliver fn j).log = d.log ++ rest ∧
      d.deliver fn j = ((d.withFiles s d.log).deliver fn j).withFiles d.store (d.log ++ entry :: rest) := by
  have hkept : (d.withFiles s d.log).keepAnswer x = { d with window := d.window.receive x, store := t } :=
    keepAnswer_of_saved saved
  have hwindow : (d.withFiles s d.log).window = d.window := rfl
  simp only [deliver, hx, showResult, keepAnswer_of_unsaved unsaved, hkept, hwindow]
  cases plainNumeral d.window.settings.base d.window.settings.fix x with
  | ok numeral => exact ⟨[], (List.append_nil d.log).symm, rfl⟩
  | error e =>
    cases Host.handover with
    | queued => exact ⟨[], (List.append_nil d.log).symm, rfl⟩
    | direct =>
      refine ⟨_, rfl, ?_⟩
      simp only [showUnwritable, showFault, notify, mapWindow, addLog, withFiles, List.append_assoc,
        List.singleton_append]

/-- A dialog and what happens in it write nothing but the settings file. -/
private theorem loadAnswer_endDialog [Host] (d : Desktop) (dialog : Dialog) (play : DialogPlay) :
    Files.loadAnswer (d.endDialog dialog play).1.store Files.cacheFolder =
      Files.loadAnswer d.store Files.cacheFolder := by
  have hput : ∀ (s : Store) entry, Files.loadAnswer (s.put Files.settingsPath entry) Files.cacheFolder =
      Files.loadAnswer s Files.cacheFolder := fun s entry => Files.loadAnswer_put (by decide) entry
  have hdisturbed : Files.loadAnswer (d.disturb play).store Files.cacheFolder =
      Files.loadAnswer d.store Files.cacheFolder := by
    simp only [disturb]
    cases play.file <;> cases play.blocked <;> simp [hput]
  have hclosed : ∀ (d : Desktop) (dialog : Dialog) accepted,
      Files.loadAnswer (d.closeDialog dialog accepted).1.store Files.cacheFolder =
        Files.loadAnswer d.store Files.cacheFolder := by
    intro d dialog accepted
    unfold closeDialog
    split
    · rfl
    · split
      · rfl
      · split
        · rename_i saved hsaved
          exact Files.loadAnswer_of_saveSettings hsaved
        · rfl
  obtain ⟨settings, notices, log, hreloaded⟩ := exists_reloadSettings
    (((d.disturb play).closeDialog (play.entries.foldl (fun g e => g.enter e.1 e.2) dialog) play.accepted).1.notify
      (.dialog dialog.fields _ (dialogStyle dialog.settings.darkMode)))
  rw [endDialog]
  dsimp only
  rw [hreloaded]
  exact (hclosed _ _ _).trans hdisturbed

end Desktop

/-! ### Sessions -/

namespace Session

variable {fn : Elementary} {s : Session}

/-- The file of the answer holds the previous answer of the window. -/
def HoldsAnswer (s : Session) : Prop :=
  Files.loadAnswer s.desktop.store Files.cacheFolder = s.desktop.window.previous

/-- If the event delivers a number, it can be written to the file of the answer. -/
def WritesAnswer (fn : Elementary) (s : Session) (e : Event) : Prop :=
  ∀ j x, e.job? s.desktop = some j → j.outcome fn = .ok x →
    ∃ t, Files.saveAnswer s.desktop.store Files.cacheFolder x = .ok t

private theorem WritesAnswer.of_idle {e : Event} (h : e.job? s.desktop = none) : s.WritesAnswer fn e := by
  intro j x hjob
  rw [h] at hjob
  cases hjob

section

variable [Host]

/-- Every number that the events deliver can be written to the file of the answer. -/
def WritesAnswers (fn : Elementary) (s : Session) : List Event → Prop
  | [] => True
  | e :: es => s.WritesAnswer fn e ∧ (s.react fn e).WritesAnswers fn es

/-- Nothing but a delivery touches the file of the answer. -/
private theorem loadAnswer_react {e : Event} (h : e.job? s.desktop = none) :
    Files.loadAnswer (s.react fn e).desktop.store Files.cacheFolder =
      Files.loadAnswer s.desktop.store Files.cacheFolder := by
  have hsame : (s.react fn e).desktop.store = s.desktop.store → Files.loadAnswer (s.react fn e).desktop.store
      Files.cacheFolder = Files.loadAnswer s.desktop.store Files.cacheFolder := fun hstore => by rw [hstore]
  have hpressed : ∀ label, (s.desktop.press fn label).store = s.desktop.store := fun label =>
    congrArg Setup.store (Desktop.setup_press s.held label)
  cases e with
  | press label _ => exact hsame (hpressed label)
  | keyDown k text =>
    refine hsame ?_
    show (s.desktop.keyDown fn k text).store = _
    unfold Desktop.keyDown
    split
    · rfl
    · split
      · exact hpressed _
      · rfl
  | keyUp k =>
    refine hsame ?_
    show (s.desktop.keyUp k).store = _
    unfold Desktop.keyUp
    split <;> rfl
  | openDialog =>
    simp only [react]
    split <;> rfl
  | closeDialog play =>
    simp only [react]
    split
    · exact s.desktop.loadAnswer_endDialog _ play
    · rfl
  | deliver i =>
    refine hsame ?_
    have hnone : s.desktop.waiting[i]? = none := h
    show (s.desktop.deliverAt fn i).store = _
    rw [Desktop.deliverAt, hnone]
  | _ => rfl

theorem HoldsAnswer.react (h : s.HoldsAnswer) {e : Event} (writes : s.WritesAnswer fn e) :
    (s.react fn e).HoldsAnswer := by
  cases hjob : e.job? s.desktop with
  | none =>
    rw [HoldsAnswer, loadAnswer_react hjob, previous_react, deliveredBy_eq_nil hjob]
    exact h
  | some j =>
    cases e with
    | deliver i =>
      have hget : s.desktop.waiting[i]? = some j := hjob
      let erased : Desktop := { s.desktop with waiting := s.desktop.waiting.eraseIdx i }
      have hdesktop : (s.react fn (.deliver i)).desktop = erased.deliver fn j := Desktop.deliverAt_eq hget
      have hwrites : ∀ x, j.outcome fn = .ok x → ∃ t, Files.saveAnswer erased.store Files.cacheFolder x = .ok t :=
        fun x => writes j x hjob
      rw [HoldsAnswer, hdesktop, Desktop.previous_deliver, Desktop.loadAnswer_deliver hwrites]
      exact congrArg ((j.outcome fn).toOption.or ·) h
    | _ => cases hjob

theorem HoldsAnswer.run (h : s.HoldsAnswer) {es : List Event} (writes : s.WritesAnswers fn es) :
    (s.run fn es).HoldsAnswer := by
  induction es generalizing s with
  | nil => exact h
  | cons e es ih => exact ih (h.react writes.1) writes.2

/-- As long as every number that is delivered can be written to the file of the answer, the file holds the previous
answer of the window, whatever was in it when the window was opened, and a window that is opened later begins with this
answer.  A number that cannot be written becomes the previous answer too; it leaves an entry in the log, and beside the
store nothing else is different from what it would be with a store that it can be written to. -/
theorem answer_kept (fn : Elementary) :
    (∀ (c : Settings) (overrides : List (Text × Json)) (store : Store) (log : List LogEntry) (es : List Event),
      (opening c overrides store log).WritesAnswers fn es →
        let s := (opening c overrides store log).run fn es
        s.HoldsAnswer ∧
          ∀ overrides' d, (Desktop.start s.desktop.store overrides').2 = .ok d →
            d.window.previous = s.desktop.window.previous) ∧
    ∀ (d : Desktop) (i : Nat) (j : Job) (x : Double) (entry : LogEntry) (s t : Store),
      d.waiting[i]? = some j → j.outcome fn = .ok x →
        Files.saveAnswer d.store Files.cacheFolder x = .error entry → Files.saveAnswer s Files.cacheFolder x = .ok t →
          let written := (d.withFiles s d.log).deliverAt fn i
          (d.deliverAt fn i).window.previous = some x ∧
            ∃ rest, written.log = d.log ++ rest ∧
              d.deliverAt fn i = written.withFiles d.store (d.log ++ entry :: rest) := by
  constructor
  · intro c overrides store log es writes s
    have hopening : (opening c overrides store log).HoldsAnswer := rfl
    have hholds : s.HoldsAnswer := hopening.run writes
    exact ⟨hholds, fun overrides' d hstart => (Desktop.previous_of_start hstart).trans hholds⟩
  · intro d i j x entry s t hget hx unsaved saved written
    let erased : Desktop := { d with waiting := d.waiting.eraseIdx i }
    have hget' : (d.withFiles s d.log).waiting[i]? = some j := hget
    have hwritten : written = (erased.withFiles s erased.log).deliver fn j := Desktop.deliverAt_eq hget'
    have hfailed : d.deliverAt fn i = erased.deliver fn j := Desktop.deliverAt_eq hget
    rw [hwritten, hfailed]
    have unsaved' : Files.saveAnswer erased.store Files.cacheFolder x = .error entry := unsaved
    refine ⟨?_, Desktop.deliver_of_unsaved hx unsaved' saved⟩
    rw [Desktop.previous_deliver, hx]
    rfl

end

/-- Three is calculated with an empty store, and with one in which a file is in the place of the folder. -/
theorem answer_kept_three :
    let c : Settings := ⟨10, 10, false, false, true, false, by decide, by decide⟩
    let three : Double := .ofBits 0x4008000000000000
    let start : List Event := [.press ['3'] (by decide), .press Label.enter (by decide)]
    let s := (opening c [] ⟨"", []⟩ []).run .platform (start ++ [.deliver 0])
    let d := ((opening c [] ⟨"", [(Files.cacheFolder, .file [])]⟩ []).run .platform start).desktop
    let written := (d.withFiles ⟨"", []⟩ d.log).deliverAt .platform 0
    s.HoldsAnswer ∧ s.desktop.window.previous = some three ∧
      (∀ overrides' d', (Desktop.start s.desktop.store overrides').2 = .ok d' → d'.window.previous = some three) ∧
      (d.deliverAt .platform 0).window.previous = some three ∧
      ∃ entry rest, written.log = d.log ++ rest ∧
        d.deliverAt .platform 0 = written.withFiles d.store (d.log ++ entry :: rest) := by
  intro c three start s d written
  have hprevious : s.desktop.window.previous = some three := by decide +kernel
  have hempty : ((opening c [] ⟨"", []⟩ []).run .platform start).desktop.store = ⟨"", []⟩ := by decide +kernel
  have hwrites : ((opening c [] ⟨"", []⟩ []).run .platform start).WritesAnswer .platform (.deliver 0) := by
    intro j x _ _
    rw [hempty]
    exact ⟨_, rfl⟩
  have writes : (opening c [] ⟨"", []⟩ []).WritesAnswers .platform (start ++ [.deliver 0]) :=
    ⟨.of_idle rfl, .of_idle rfl, hwrites, trivial⟩
  have hget : d.waiting[0]? = some ⟨['3'], none, c⟩ := by decide +kernel
  have hthree : Job.outcome .platform ⟨['3'], none, c⟩ = .ok three := by decide +kernel
  obtain ⟨hholds, hlater⟩ := (answer_kept .platform).1 c [] ⟨"", []⟩ [] (start ++ [.deliver 0]) writes
  obtain ⟨hmemory, rest, hlog, hfailed⟩ :=
    (answer_kept .platform).2 d 0 ⟨['3'], none, c⟩ three _ ⟨"", []⟩ _ hget hthree rfl rfl
  refine ⟨hholds, hprevious, fun overrides' d' hstart => ?_, hmemory, _, rest, hlog, hfailed⟩
  rw [← hprevious]
  exact hlater overrides' d' hstart

end Session

end DeskCalc
