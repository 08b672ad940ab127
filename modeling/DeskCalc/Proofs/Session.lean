import DeskCalc.Desktop

/-!
# Sessions

A session is the desktop while its window is open.  What happens in it comes one event at a time (`Event`): a button or
a key is pressed, the clipboard or the keyboard changes, the settings dialog is opened or closed, or the outcome of one
of the waiting calculations is delivered.  Events may come in any order (`Session.run`), so an outcome may be delivered
long after its calculation was started, and also while the settings dialog is open.

What an event does to the window and to the waiting calculations is listed in `Session.Step`, one constructor for each
way.  Every invariant of sessions is a case analysis on it.

That the steps of `Desktop.perform` are made of events too is proved in the module on immediate outcomes.
-/

namespace DeskCalc

/-! ### Outcomes -/

namespace Window

/-- The calculation of the window's text. -/
def job (w : Window) : Job :=
  ⟨w.text, w.previous, w.settings⟩

/-- The outcome of a calculation of `problem` takes the window from the first state to the second one. -/
inductive Taken [Host] (w : Window) (problem : List Char) : Except Fault Double → Window → Prop where
  | result (x : Double) (numeral : List Char) (written : plainNumeral w.settings.base w.settings.fix x = .ok numeral) :
      Taken w problem (.ok x) ((w.receive x).showResult numeral)
  | dropped (x : Double) (e : NumeralError) (unwritten : plainNumeral w.settings.base w.settings.fix x = .error e)
      (queued : Host.handover = .queued) : Taken w problem (.ok x) (w.receive x)
  | returned (x : Double) (e : NumeralError) (unwritten : plainNumeral w.settings.base w.settings.fix x = .error e)
      (direct : Host.handover = .direct) : Taken w problem (.ok x) ((w.receive x).release problem)
  | usage (usage : String) : Taken w problem (.error (.help usage)) (w.release w.text)
  | fault (f : Fault) (kind_ne : f.kind ≠ .help) : Taken w problem (.error f) (w.release problem)

end Window

namespace Desktop

variable [Host] {fn : Elementary} {d : Desktop}

/-- The outcome of one of the waiting calculations is delivered. -/
def deliverAt (fn : Elementary) (d : Desktop) (i : Nat) : Desktop :=
  match d.waiting[i]? with
  | some j => { d with waiting := d.waiting.eraseIdx i }.deliver fn j
  | none => d

omit [Host] in
theorem exists_keepAnswer (d : Desktop) (x : Double) :
    ∃ store log, d.keepAnswer x = { d with window := d.window.receive x, store := store, log := log } := by
  unfold keepAnswer
  cases Files.saveAnswer d.store Files.cacheFolder x <;> exact ⟨_, _, rfl⟩

/-- Beside the window, an outcome changes only the notices, the store and the log. -/
theorem exists_deliver (fn : Elementary) (d : Desktop) (j : Job) :
    ∃ w notices store log, d.window.Taken j.problem (j.outcome fn) w ∧ d.deliver fn j =
      { d with window := w, notices := notices, store := store, log := log } := by
  unfold deliver
  cases j.outcome fn with
  | ok x =>
    obtain ⟨store, log, hkept⟩ := exists_keepAnswer d x
    simp only [showResult, hkept]
    cases hnumeral : plainNumeral d.window.settings.base d.window.settings.fix x with
    | ok numeral => exact ⟨_, _, store, _, .result x numeral hnumeral, rfl⟩
    | error e =>
      cases hhandover : Host.handover with
      | queued => exact ⟨_, _, store, _, .dropped x e hnumeral hhandover, rfl⟩
      | direct => exact ⟨_, _, store, _, .returned x e hnumeral hhandover, rfl⟩
  | error f =>
    cases f with
    | help usage => exact ⟨_, _, _, _, .usage usage, rfl⟩
    | setting f => exact ⟨_, _, _, _, .fault _ f.kind_ne_help, rfl⟩
    | _ => exact ⟨_, _, _, _, .fault _ (by intro h; cases h), rfl⟩

theorem exists_deliverAt (fn : Elementary) {i : Nat} {j : Job} (h : d.waiting[i]? = some j) :
    ∃ w notices store log, d.window.Taken j.problem (j.outcome fn) w ∧ d.deliverAt fn i =
      { d with window := w, waiting := d.waiting.eraseIdx i, notices := notices, store := store, log := log } := by
  rw [deliverAt, h]
  exact exists_deliver fn { d with waiting := d.waiting.eraseIdx i } j

/-- The desktop that lets calculations wait. -/
def holding (d : Desktop) : Desktop :=
  { d with held := true }

/-! ### The settings dialog -/

/-- Ends an open dialog after what happens in it, and loads the settings again. -/
def endDialog (d : Desktop) (dialog : Dialog) (play : DialogPlay) : Desktop × Option LoadError :=
  let filled := play.entries.foldl (fun g e => g.enter e.1 e.2) dialog
  let (closed, ending) := (d.disturb play).closeDialog filled play.accepted
  (closed.notify (.dialog dialog.fields ending (dialogStyle dialog.settings.darkMode))).reloadSettings

theorem openSettings_eq (d : Desktop) (play : DialogPlay) :
    d.openSettings play =
      match Dialog.load d.store with
      | (log, .error e) => (d.addLog log, some e)
      | (log, .ok dialog) => (d.addLog log).endDialog dialog play := by
  unfold openSettings endDialog
  rcases Dialog.load d.store with ⟨log, loaded⟩
  cases loaded <;> rfl

theorem exists_reloadSettings (d : Desktop) :
    ∃ settings notices log, d.reloadSettings.1 =
      { d with window := { d.window with settings := settings }, notices := notices, log := log } := by
  unfold reloadSettings
  rcases Files.loadSettings d.store d.overrides with ⟨log, loaded⟩
  cases loaded with
  | ok c => exact ⟨c, _, _, rfl⟩
  | error e =>
    dsimp only
    cases e.fault? <;> exact ⟨d.window.settings, _, _, rfl⟩

private theorem exists_closeDialog (d : Desktop) (dialog : Dialog) (accepted : Bool) :
    ∃ store notices log, (d.closeDialog dialog accepted).1 =
      { d with store := store, notices := notices, log := log } := by
  unfold closeDialog
  split
  · exact ⟨_, _, _, rfl⟩
  · split
    · exact ⟨_, _, _, rfl⟩
    · split <;> exact ⟨_, _, _, rfl⟩

/-- Of the window, the dialog changes only the settings. -/
theorem exists_endDialog (d : Desktop) (dialog : Dialog) (play : DialogPlay) :
    ∃ settings store notices log, (d.endDialog dialog play).1 =
      { d with
        window := { d.window with settings := settings }
        store := store
        notices := notices
        log := log } := by
  let filled := play.entries.foldl (fun g e => g.enter e.1 e.2) dialog
  obtain ⟨store, notices, log, hclosed⟩ := exists_closeDialog (d.disturb play) filled play.accepted
  let ending := ((d.disturb play).closeDialog filled play.accepted).2
  obtain ⟨settings, notices', log', hreloaded⟩ := exists_reloadSettings
    (((d.disturb play).closeDialog filled play.accepted).1.notify
      (.dialog dialog.fields ending (dialogStyle dialog.settings.darkMode)))
  refine ⟨settings, store, notices', log', hreloaded.trans ?_⟩
  rw [hclosed]
  rfl

/-! ### Starting a calculation -/

theorem calculate_of_active (h : d.window.active = true) :
    d.calculate fn = d.addLog [⟨.warning, .window, "A calculation is already running"⟩] :=
  if_pos h

theorem calculate_of_idle (held : d.held = true) (h : d.window.active = false) :
    d.calculate fn = { d with window := d.window.wait, waiting := d.waiting ++ [d.window.job] } := by
  rw [calculate, if_neg (Bool.eq_false_iff.1 h), if_pos held]
  rfl

/-! ### What waits -/

private theorem held_deliver (fn : Elementary) (d : Desktop) (j : Job) : (d.deliver fn j).held = d.held := by
  obtain ⟨w, notices, store, log, -, h⟩ := exists_deliver fn d j
  rw [h]

private theorem held_deliverAt (fn : Elementary) (d : Desktop) (i : Nat) : (d.deliverAt fn i).held = d.held := by
  unfold deliverAt
  split
  · exact held_deliver fn _ _
  · rfl

private theorem held_calculate (fn : Elementary) (d : Desktop) : (d.calculate fn).held = d.held := by
  unfold calculate
  split
  · rfl
  · dsimp only
    split
    · rfl
    · exact held_deliver fn _ _

private theorem held_paste (fn : Elementary) (d : Desktop) : (d.paste fn).held = d.held := by
  unfold paste
  split
  · rfl
  · dsimp only
    split
    · exact held_calculate fn _
    · rfl

private theorem held_press (fn : Elementary) (d : Desktop) (label : List Char) : (d.press fn label).held = d.held := by
  unfold press
  cases Button.ofLabel label with
  | clipboard =>
    show (if d.isPasting then d.paste fn else { d with clipboard := d.window.display }).held = d.held
    split
    · exact held_paste fn d
    · rfl
  | enter => exact held_calculate fn d
  | _ => rfl

private theorem held_keyDown (fn : Elementary) (d : Desktop) (k : Key) (text : List Char) :
    (d.keyDown fn k text).held = d.held := by
  unfold keyDown
  split
  · rfl
  · split
    · exact held_press fn d _
    · rfl

omit [Host] in
private theorem held_keyUp (d : Desktop) (k : Key) : (d.keyUp k).held = d.held := by
  unfold keyUp
  split <;> rfl

private theorem held_endDialog (d : Desktop) (dialog : Dialog) (play : DialogPlay) :
    (d.endDialog dialog play).1.held = d.held := by
  obtain ⟨settings, store, notices, log, h⟩ := exists_endDialog d dialog play
  rw [h]

end Desktop

/-! ### Events -/

/-- What can happen while the window is open.  No button is without a label. -/
inductive Event where
  | press (label : List Char) (label_ne : label ≠ [])
  | keyDown (key : Key) (text : List Char)
  | keyUp (key : Key)
  | setClipboard (text : List Char)
  | setShift (down : Bool)
  | openDialog
  | closeDialog (play : DialogPlay)
  | deliver (i : Nat)
  deriving DecidableEq, Repr

/-- The label of the button that is pressed, also by a key. -/
def Event.label? : Event → Option (List Char)
  | press label _ => some label
  | keyDown k text => k.label? text
  | _ => none

/-- The calculation whose outcome is delivered. -/
def Event.job? (e : Event) (d : Desktop) : Option Job :=
  match e with
  | deliver i => d.waiting[i]?
  | _ => none

theorem Event.job?_of_label {e : Event} {label : List Char} (h : e.label? = some label) (d : Desktop) :
    e.job? d = none := by
  cases e with
  | deliver i => cases h
  | _ => rfl

/-- The desktop while its window is open, with the settings dialog if it is open too.  Calculations wait until their
outcome is delivered. -/
structure Session where
  desktop : Desktop
  dialog : Option Dialog
  held : desktop.held = true

namespace Session

/-- The session in which nothing has happened yet to the desktop. -/
def ofDesktop (d : Desktop) : Session :=
  ⟨d.holding, none, rfl⟩

/-- The window is opened with settings that were loaded, and with what is found in the store. -/
def opening (c : Settings) (overrides : List (Text × Json)) (store : Store) (log : List LogEntry) : Session :=
  ofDesktop ⟨Window.start c (Files.loadAnswer store Files.cacheFolder), overrides, store, [], false, false, [], [], log⟩

/-- What an event does.  A second dialog is not opened; whatever else an open dialog may keep from happening is allowed
here. -/
def react [Host] (fn : Elementary) (s : Session) : Event → Session
  | .press label _ => ⟨s.desktop.press fn label, s.dialog, (Desktop.held_press fn _ _).trans s.held⟩
  | .keyDown k text => ⟨s.desktop.keyDown fn k text, s.dialog, (Desktop.held_keyDown fn _ _ _).trans s.held⟩
  | .keyUp k => ⟨s.desktop.keyUp k, s.dialog, (Desktop.held_keyUp _ _).trans s.held⟩
  | .setClipboard text => ⟨{ s.desktop with clipboard := text }, s.dialog, s.held⟩
  | .setShift down => ⟨{ s.desktop with shiftDown := down }, s.dialog, s.held⟩
  | .openDialog =>
    match s.dialog with
    | some _ => s
    | none =>
      let (log, loaded) := Dialog.load s.desktop.store
      ⟨s.desktop.addLog log, loaded.toOption, s.held⟩
  | .closeDialog play =>
    match s.dialog with
    | some dialog =>
      ⟨(s.desktop.endDialog dialog play).1, none, (Desktop.held_endDialog _ _ _).trans s.held⟩
    | none => s
  | .deliver i => ⟨s.desktop.deliverAt fn i, s.dialog, (Desktop.held_deliverAt fn _ _).trans s.held⟩

/-- What a series of events does. -/
def run [Host] (fn : Elementary) (s : Session) (es : List Event) : Session :=
  es.foldl (react fn) s

section Run

variable [Host] {fn : Elementary} {s : Session}

theorem run_cons (e : Event) (es : List Event) : s.run fn (e :: es) = (s.react fn e).run fn es :=
  rfl

theorem run_append (es es' : List Event) : s.run fn (es ++ es') = (s.run fn es).run fn es' :=
  List.foldl_append

theorem run_concat (es : List Event) (e : Event) : s.run fn (es ++ [e]) = (s.run fn es).react fn e :=
  run_append es [e]

/-- What one event preserves, a series of events preserves. -/
theorem run_invariant (Inv : Session → Prop) (hstep : ∀ s e, Inv s → Inv (s.react fn e)) (h : Inv s)
    (es : List Event) : Inv (s.run fn es) := by
  induction es generalizing s with
  | nil => exact h
  | cons e es ih => exact ih (hstep s e h)

/-- A key that stands for a button is the same as the button. -/
theorem react_of_label (fn : Elementary) {e : Event} {label : List Char} (h : e.label? = some label) :
    (s.react fn e).desktop = s.desktop.press fn label ∧ (s.react fn e).dialog = s.dialog := by
  cases e with
  | press l l_ne =>
    cases h
    exact ⟨rfl, rfl⟩
  | keyDown k text =>
    have hk : k ≠ .shift := by
      rintro rfl
      cases h
    have hlabel : k.label? text = some label := h
    refine ⟨?_, rfl⟩
    show s.desktop.keyDown fn k text = _
    rw [Desktop.keyDown, if_neg hk, hlabel]
  | _ => cases h

theorem react_openDialog (fn : Elementary) (h : s.dialog = none) :
    (s.react fn .openDialog).desktop = s.desktop.addLog (Dialog.load s.desktop.store).1 ∧
      (s.react fn .openDialog).dialog = (Dialog.load s.desktop.store).2.toOption := by
  simp only [react]
  split
  · rename_i dialog hdialog
    rw [h] at hdialog
    cases hdialog
  · exact ⟨rfl, rfl⟩

theorem react_closeDialog (fn : Elementary) {dialog : Dialog} (h : s.dialog = some dialog) (play : DialogPlay) :
    (s.react fn (.closeDialog play)).desktop = (s.desktop.endDialog dialog play).1 ∧
      (s.react fn (.closeDialog play)).dialog = none := by
  simp only [react]
  split
  · rename_i dialog' hdialog
    rw [h] at hdialog
    cases hdialog
    exact ⟨rfl, rfl⟩
  · rename_i hdialog
    rw [h] at hdialog
    cases hdialog

end Run

end Session

/-! ### What an event does -/

/-- A change of the window that starts no calculation and does not go through the history: a new text, or nothing that
has to do with the text. -/
inductive Window.Touch (w : Window) : Window → Prop where
  | edit (text : List Char) (text_ne : text ≠ []) : Touch w (w.edit text)
  | adjust (settings : Settings) (shiftHeld pastes : Bool) :
      Touch w { w with settings := settings, shiftHeld := shiftHeld, pastes := pastes }

theorem Window.Touch.refl (w : Window) : w.Touch w :=
  .adjust w.settings w.shiftHeld w.pastes

/-- The event takes the desktop from the first state to the second one. -/
inductive Session.Step [Host] (fn : Elementary) (d : Desktop) (e : Event) (d' : Desktop) : Prop where
  | undo (label_eq : e.label? = some Label.undo) (window_eq : d'.window = d.window.undo)
      (waiting_eq : d'.waiting = d.waiting)
  | redo (label_eq : e.label? = some Label.redo) (window_eq : d'.window = d.window.redo)
      (waiting_eq : d'.waiting = d.waiting)
  | touch (job_eq : e.job? d = none) (touch : d.window.Touch d'.window) (waiting_eq : d'.waiting = d.waiting)
  | start (job_eq : e.job? d = none) (idle : d.window.active = false) (w : Window) (touch : d.window.Touch w)
      (window_eq : d'.window = w.wait) (waiting_eq : d'.waiting = d.waiting ++ [w.job])
  | deliver (i : Nat) (j : Job) (event_eq : e = .deliver i) (job_eq : d.waiting[i]? = some j)
      (taken : d.window.Taken j.problem (j.outcome fn) d'.window) (waiting_eq : d'.waiting = d.waiting.eraseIdx i)

/-! ### Texts -/

namespace Window

private theorem shortened_ne_nil (text : List Char) : shortened text ≠ [] := by
  unfold shortened
  split
  · exact List.cons_ne_nil _ _
  · assumption

private theorem touch_type (w : Window) {typed : List Char} (h : typed ≠ []) : w.Touch (w.type typed) :=
  .edit _ (List.append_ne_nil_of_right_ne_nil _ h)

private theorem touch_paste (w : Window) {pasted : List Char} (h : pasted ≠ []) : w.Touch (w.paste pasted) := by
  unfold paste
  split
  · exact .edit pasted h
  · exact .edit _ (List.append_ne_nil_of_right_ne_nil _ h)

end Window

namespace Button

variable {label : List Char}

private theorem eq_of_ofLabel_undo (h : ofLabel label = .undo) : label = Label.undo := by
  grind [ofLabel]

private theorem eq_of_ofLabel_redo (h : ofLabel label = .redo) : label = Label.redo := by
  grind [ofLabel]

private theorem eq_of_ofLabel_text {s : List Char} (h : ofLabel label = .text s) : label = s := by
  grind [ofLabel]

end Button

private theorem Key.ne_nil_of_label? {k : Key} {text label : List Char} (h : k.label? text = some label) :
    label ≠ [] := by
  cases k with
  | shift => cases h
  | carriageReturn | enter | backspace =>
    cases h
    exact List.cons_ne_nil _ _
  | other =>
    simp only [Key.label?] at h
    split at h
    · rename_i hne
      cases h
      exact hne.1
    · cases h

namespace Session.Step

variable [Host] {fn : Elementary} {d : Desktop} {e : Event}

/-- A calculation is started after a change of the window, or refused. -/
private theorem of_calculate {f : Window → Window} (held : d.held = true) (job_eq : e.job? d = none)
    (hactive : (f d.window).active = d.window.active) (htouch : d.window.Touch (f d.window)) :
    Step fn d e ((d.mapWindow f).calculate fn) := by
  have held' : (d.mapWindow f).held = true := held
  cases h : (f d.window).active with
  | true =>
    rw [Desktop.calculate_of_active h]
    exact .touch job_eq htouch rfl
  | false =>
    rw [Desktop.calculate_of_idle held' h]
    exact .start job_eq (hactive ▸ h) (f d.window) htouch rfl rfl

private theorem of_paste (held : d.held = true) (job_eq : e.job? d = none) : Step fn d e (d.paste fn) := by
  unfold Desktop.paste
  cases strip d.clipboard with
  | nil => exact .touch job_eq (.refl d.window) rfl
  | cons c cs =>
    have htouch := d.window.touch_paste (List.cons_ne_nil c cs)
    dsimp only
    split
    · refine of_calculate held job_eq ?_ htouch
      unfold Window.paste
      split <;> rfl
    · exact .touch job_eq htouch rfl

private theorem of_press {label : List Char} (held : d.held = true) (label_ne : label ≠ [])
    (label_eq : e.label? = some label) : Step fn d e (d.press fn label) := by
  have job_eq := Event.job?_of_label label_eq d
  unfold Desktop.press
  cases hbutton : Button.ofLabel label with
  | backspace => exact .touch job_eq (.edit _ (Window.shortened_ne_nil _)) rfl
  | clear => exact .touch job_eq (.edit _ (List.cons_ne_nil _ _)) rfl
  | undo => exact .undo (Button.eq_of_ofLabel_undo hbutton ▸ label_eq) rfl rfl
  | redo => exact .redo (Button.eq_of_ofLabel_redo hbutton ▸ label_eq) rfl rfl
  | clipboard =>
    show Step fn d e (if d.isPasting then d.paste fn else { d with clipboard := d.window.display })
    split
    · exact of_paste held job_eq
    · exact .touch job_eq (.refl d.window) rfl
  | enter => exact of_calculate (f := id) held job_eq rfl (.refl d.window)
  | text typed =>
    have typed_ne : typed ≠ [] := Button.eq_of_ofLabel_text hbutton ▸ label_ne
    exact .touch job_eq (d.window.touch_type typed_ne) rfl

private theorem of_keyDown {k : Key} {text : List Char} (held : d.held = true) :
    Step fn d (.keyDown k text) (d.keyDown fn k text) := by
  unfold Desktop.keyDown
  split
  · exact .touch rfl (.adjust _ _ _) rfl
  · split
    · rename_i label hlabel
      exact of_press held (Key.ne_nil_of_label? hlabel) hlabel
    · exact .touch rfl (.refl d.window) rfl

private theorem of_keyUp {k : Key} : Step fn d (.keyUp k) (d.keyUp k) := by
  unfold Desktop.keyUp
  split
  · exact .touch rfl (.adjust _ _ _) rfl
  · exact .touch rfl (.refl d.window) rfl

private theorem of_endDialog (dialog : Dialog) {play : DialogPlay} :
    Step fn d (.closeDialog play) (d.endDialog dialog play).1 := by
  obtain ⟨settings, store, notices, log, h⟩ := Desktop.exists_endDialog d dialog play
  rw [h]
  exact .touch rfl (.adjust _ _ _) rfl

private theorem of_deliverAt (i : Nat) : Step fn d (.deliver i) (d.deliverAt fn i) := by
  cases hget : d.waiting[i]? with
  | some j =>
    obtain ⟨w, notices, store, log, htaken, h⟩ := Desktop.exists_deliverAt fn hget
    rw [h]
    exact .deliver i j rfl hget htaken rfl
  | none =>
    rw [Desktop.deliverAt, hget]
    exact .touch hget (.refl d.window) rfl

end Session.Step

/-- Whatever an event does is one of the ways of `Session.Step`. -/
theorem Session.step_react [Host] (fn : Elementary) (s : Session) (e : Event) :
    Step fn s.desktop e (s.react fn e).desktop := by
  cases e with
  | press label label_ne => exact .of_press s.held label_ne rfl
  | keyDown k text => exact .of_keyDown s.held
  | keyUp k => exact .of_keyUp
  | setClipboard text => exact .touch rfl (.refl s.desktop.window) rfl
  | setShift down => exact .touch rfl (.refl s.desktop.window) rfl
  | openDialog =>
    simp only [react]
    split <;> exact .touch rfl (.refl s.desktop.window) rfl
  | closeDialog play =>
    simp only [react]
    split
    · exact .of_endDialog _
    · exact .touch rfl (.refl s.desktop.window) rfl
  | deliver i => exact .of_deliverAt i

end DeskCalc
