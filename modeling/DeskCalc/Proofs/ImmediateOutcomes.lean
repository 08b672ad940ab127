import DeskCalc.Proofs.Session

/-!
# Immediate outcomes

Outside a session a calculation need not wait: unless the desktop holds it, its outcome is delivered at once, and a
play of the settings dialog is one step.  Both are made of events.  Each part of a step that can start a calculation
does what it does in a session, where the calculation waits, and a delivery after it (`Desktop.Settles`).

So whatever `Desktop.perform` does after the start, step after step, is a session (`Session.exists_run_of_start`), and
what holds in all sessions holds of the desktop too.
-/

namespace DeskCalc

/-! ### Steps of the desktop -/

namespace Desktop

variable [Host] {fn : Elementary} {d : Desktop}

theorem waiting_deliver (fn : Elementary) (d : Desktop) (j : Job) : (d.deliver fn j).waiting = d.waiting := by
  obtain ⟨w, notices, store, log, -, h⟩ := exists_deliver fn d j
  rw [h]

/-- What is delivered does not depend on what waits. -/
private theorem deliver_setWaiting (fn : Elementary) (d : Desktop) (held : Bool) (js : List Job) (j : Job) :
    { d with held := held, waiting := js }.deliver fn j = { d.deliver fn j with held := held, waiting := js } := by
  unfold deliver
  cases j.outcome fn with
  | ok x =>
    simp only [showResult, keepAnswer]
    cases Files.saveAnswer d.store Files.cacheFolder x <;>
      cases plainNumeral d.window.settings.base d.window.settings.fix x <;> cases Host.handover <;> rfl
  | error f => cases f <;> rfl

private theorem deliverAt_append (fn : Elementary) (d : Desktop) (j : Job) (js : List Job) :
    { d with held := true, waiting := d.waiting ++ j :: js }.deliverAt fn d.waiting.length =
      { d.deliver fn j with held := true, waiting := d.waiting ++ js } := by
  have hget : (d.waiting ++ j :: js)[d.waiting.length]? = some j := by simp
  have herase : (d.waiting ++ j :: js).eraseIdx d.waiting.length = d.waiting ++ js := by
    rw [List.eraseIdx_append_of_length_le (Nat.le_refl _), Nat.sub_self]
    rfl
  unfold deliverAt
  simp only [hget, herase]
  exact deliver_setWaiting fn d true _ j

/-- The first desktop becomes the second one when outcomes are delivered, except that calculations wait in it. -/
def Settles (fn : Elementary) (d d' : Desktop) : Prop :=
  ∃ is : List Nat, is.foldl (deliverAt fn) d = d'.holding

private theorem settles_calculate (fn : Elementary) (d : Desktop) :
    Settles fn (d.holding.calculate fn) (d.calculate fn) := by
  unfold calculate
  by_cases hactive : d.window.active = true
  · rw [if_pos hactive]
    exact ⟨[], if_pos hactive⟩
  · rw [if_neg hactive, if_neg (show ¬d.holding.window.active = true from hactive)]
    cases hheld : d.held with
    | true => exact ⟨[], rfl⟩
    | false =>
      -- the calculation waits in the last place, and nothing else has changed when it is delivered
      have hdelivered := deliverAt_append fn (d.mapWindow Window.wait) d.job []
      have hwaiting := waiting_deliver fn (d.mapWindow Window.wait) d.job
      rw [List.append_nil] at hdelivered
      exact ⟨[d.waiting.length], hdelivered.trans
        (congrArg (fun js => { (d.mapWindow Window.wait).deliver fn d.job with held := true, waiting := js })
          hwaiting.symm)⟩

private theorem settles_paste (fn : Elementary) (d : Desktop) : Settles fn (d.holding.paste fn) (d.paste fn) := by
  have hclipboard : d.holding.clipboard = d.clipboard := rfl
  unfold paste
  rw [hclipboard]
  cases strip d.clipboard with
  | nil => exact ⟨[], rfl⟩
  | cons c cs =>
    show Settles fn (if d.window.settings.afterPasteEnter then _ else _) (if d.window.settings.afterPasteEnter then _ else _)
    split
    · exact settles_calculate fn (d.mapWindow fun w => w.paste (c :: cs))
    · exact ⟨[], rfl⟩

private theorem settles_press (fn : Elementary) (d : Desktop) (label : List Char) :
    Settles fn (d.holding.press fn label) (d.press fn label) := by
  unfold press
  cases Button.ofLabel label with
  | clipboard =>
    show Settles fn (if d.isPasting then _ else _) (if d.isPasting then _ else _)
    split
    · exact settles_paste fn d
    · exact ⟨[], rfl⟩
  | enter => exact settles_calculate fn d
  | _ => exact ⟨[], rfl⟩

private theorem settles_keyDown (fn : Elementary) (d : Desktop) (k : Key) (text : List Char) :
    Settles fn (d.holding.keyDown fn k text) (d.keyDown fn k text) := by
  unfold keyDown
  split
  · exact ⟨[], rfl⟩
  · split
    · exact settles_press fn d _
    · exact ⟨[], rfl⟩

/-- The calculations that wait are delivered one after another. -/
private theorem foldl_deliverAt (fn : Elementary) {d : Desktop} (h : d.waiting = []) (js : List Job) :
    (List.replicate js.length 0).foldl (deliverAt fn) { d with held := true, waiting := js } =
      (js.foldl (deliver fn) d).holding := by
  induction js generalizing d with
  | nil =>
    show { d with held := true, waiting := [] } = d.holding
    rw [← h]
    rfl
  | cons j js ih =>
    have hfirst : { d with held := true, waiting := j :: js }.deliverAt fn 0 =
        { d.deliver fn j with held := true, waiting := js } := by
      have happend := deliverAt_append fn d j js
      rw [h] at happend
      exact happend
    show (List.replicate js.length 0).foldl (deliverAt fn) ({ d with held := true, waiting := j :: js }.deliverAt fn 0) =
      (js.foldl (deliver fn) (d.deliver fn j)).holding
    rw [hfirst]
    exact ih ((waiting_deliver fn d j).trans h)

private theorem settles_finish (fn : Elementary) (d : Desktop) : Settles fn d.holding (d.finish fn) :=
  ⟨List.replicate d.waiting.length 0, foldl_deliverAt fn (d := { d with waiting := [] }) rfl d.waiting⟩

private theorem closeDialog_holding (d : Desktop) (dialog : Dialog) (accepted : Bool) :
    d.holding.closeDialog dialog accepted =
      ((d.closeDialog dialog accepted).1.holding, (d.closeDialog dialog accepted).2) := by
  have hstore : d.holding.store = d.store := rfl
  unfold closeDialog
  rw [hstore]
  split
  · rfl
  · cases dialog.accept with
    | error r => rfl
    | ok c =>
      dsimp only
      cases Files.saveSettings d.store c.entries <;> rfl

private theorem reloadSettings_holding (d : Desktop) : d.holding.reloadSettings.1 = d.reloadSettings.1.holding := by
  have hloaded : Files.loadSettings d.holding.store d.holding.overrides = Files.loadSettings d.store d.overrides := rfl
  unfold reloadSettings
  rw [hloaded]
  rcases Files.loadSettings d.store d.overrides with ⟨log, loaded⟩
  cases loaded with
  | ok c => rfl
  | error e =>
    dsimp only
    cases e.fault? <;> rfl

private theorem endDialog_holding (d : Desktop) (dialog : Dialog) (play : DialogPlay) :
    (d.holding.endDialog dialog play).1 = (d.endDialog dialog play).1.holding := by
  let filled := play.entries.foldl (fun g e => g.enter e.1 e.2) dialog
  have hclosed : (d.holding.disturb play).closeDialog filled play.accepted = _ :=
    closeDialog_holding (d.disturb play) filled play.accepted
  show (((d.holding.disturb play).closeDialog filled play.accepted).1.notify (.dialog dialog.fields
      ((d.holding.disturb play).closeDialog filled play.accepted).2 (dialogStyle dialog.settings.darkMode))
    ).reloadSettings.1 = _
  rw [hclosed]
  exact reloadSettings_holding (((d.disturb play).closeDialog filled play.accepted).1.notify (.dialog dialog.fields
    ((d.disturb play).closeDialog filled play.accepted).2 (dialogStyle dialog.settings.darkMode)))

end Desktop

/-! ### Steps of the desktop -/

namespace Session

variable [Host] {fn : Elementary} {d d' : Desktop}

omit [Host] in
private theorem eq_ofDesktop {s : Session} (hdesktop : s.desktop = d.holding) (hdialog : s.dialog = none) :
    s = ofDesktop d := by
  obtain ⟨desktop, dialog, held⟩ := s
  cases hdesktop
  cases hdialog
  rfl

private theorem run_deliver (fn : Elementary) (s : Session) (is : List Nat) :
    (s.run fn (is.map .deliver)).desktop = is.foldl (Desktop.deliverAt fn) s.desktop ∧
      (s.run fn (is.map .deliver)).dialog = s.dialog := by
  induction is generalizing s with
  | nil => exact ⟨rfl, rfl⟩
  | cons i is ih => exact ih (s.react fn (.deliver i))

/-- Outcomes that are delivered after some events are further events. -/
private theorem exists_run_of_settles (es : List Event) (h : Desktop.Settles fn ((ofDesktop d).run fn es).desktop d')
    (hdialog : ((ofDesktop d).run fn es).dialog = none) : ∃ es, (ofDesktop d).run fn es = ofDesktop d' := by
  obtain ⟨is, his⟩ := h
  obtain ⟨hdesktop, hnone⟩ := run_deliver fn ((ofDesktop d).run fn es) is
  refine ⟨es ++ is.map .deliver, ?_⟩
  rw [run_append]
  exact eq_ofDesktop (hdesktop.trans his) (hnone.trans hdialog)

private theorem exists_run_openSettings (fn : Elementary) (d : Desktop) (play : DialogPlay) :
    ∃ es, (ofDesktop d).run fn es = ofDesktop (d.openSettings play).1 := by
  obtain ⟨hopened, hdialog⟩ := react_openDialog fn (show (ofDesktop d).dialog = none from rfl)
  have hload : Dialog.load (ofDesktop d).desktop.store = Dialog.load d.store := rfl
  rw [Desktop.openSettings_eq]
  rw [hload] at hopened hdialog
  generalize Dialog.load d.store = opened at *
  obtain ⟨log, loaded⟩ := opened
  cases loaded with
  | error e => exact ⟨[.openDialog], eq_ofDesktop hopened hdialog⟩
  | ok dialog =>
    obtain ⟨hclosed, hnone⟩ := react_closeDialog fn hdialog play
    refine ⟨[.openDialog, .closeDialog play], eq_ofDesktop (hclosed.trans ?_) hnone⟩
    rw [hopened]
    exact Desktop.endDialog_holding (d.addLog log) dialog play

/-- A step of the desktop is a series of events.  It can only type texts that are not empty. -/
private theorem exists_run_perform (fn : Elementary) (d : Desktop) {a : Action} (h : a ≠ .press []) :
    ∃ es, (ofDesktop d).run fn es = ofDesktop (d.perform fn a).1 := by
  cases a with
  | press label =>
    have hlabel : label ≠ [] := fun hnil => h (congrArg Action.press hnil)
    exact exists_run_of_settles [.press label hlabel] (Desktop.settles_press fn d label) rfl
  | keyDown k text => exact exists_run_of_settles [.keyDown k text] (Desktop.settles_keyDown fn d k text) rfl
  | keyUp k =>
    refine ⟨[.keyUp k], eq_ofDesktop ?_ rfl⟩
    show d.holding.keyUp k = (d.keyUp k).holding
    unfold Desktop.keyUp
    split <;> rfl
  | openSettings play => exact exists_run_openSettings fn d play
  | setClipboard text => exact ⟨[.setClipboard text], rfl⟩
  | setShift down => exact ⟨[.setShift down], rfl⟩
  | hold on => exact ⟨[], rfl⟩
  | finish => exact exists_run_of_settles [] (Desktop.settles_finish fn d) rfl

/-- A series of steps of the desktop is a series of events. -/
private theorem exists_run_foldl_perform (fn : Elementary) (d : Desktop) {as : List Action} (h : .press [] ∉ as) :
    ∃ es, (ofDesktop d).run fn es = ofDesktop (as.foldl (fun d a => (d.perform fn a).1) d) := by
  induction as generalizing d with
  | nil => exact ⟨[], rfl⟩
  | cons a as ih =>
    obtain ⟨es, hes⟩ := exists_run_perform fn d (List.ne_of_not_mem_cons h).symm
    obtain ⟨es', hes'⟩ := ih (d.perform fn a).1 (List.not_mem_of_not_mem_cons h)
    exact ⟨es ++ es', by rw [run_append, hes, hes']; rfl⟩

private theorem ofDesktop_of_start {store : Store} {overrides : List (Text × Json)} {log : List LogEntry} {d : Desktop}
    (h : Desktop.start store overrides = (log, .ok d)) :
    ∃ c, Files.loadSettings store overrides = (log, .ok c) ∧ ofDesktop d = opening c overrides store log := by
  unfold Desktop.start at h
  rcases hloaded : Files.loadSettings store overrides with ⟨log', loaded⟩
  rw [hloaded] at h
  cases loaded with
  | error e => cases h
  | ok c =>
    cases h
    exact ⟨c, rfl, rfl⟩

/-- Whatever becomes of a desktop after its start is a session from its opening on. -/
theorem exists_run_of_start (fn : Elementary) {store : Store} {overrides : List (Text × Json)} {log : List LogEntry}
    (hstart : Desktop.start store overrides = (log, .ok d)) {as : List Action} (h : .press [] ∉ as) :
    ∃ c es, (opening c overrides store log).run fn es = ofDesktop (as.foldl (fun d a => (d.perform fn a).1) d) := by
  obtain ⟨c, -, hopening⟩ := ofDesktop_of_start hstart
  obtain ⟨es, hes⟩ := exists_run_foldl_perform fn d h
  rw [hopening] at hes
  exact ⟨c, es, hes⟩

end Session

end DeskCalc
