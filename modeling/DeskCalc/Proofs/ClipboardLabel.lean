import Mathlib.Data.List.Induction
import DeskCalc.Elementary.Platform
import DeskCalc.Proofs.SettingsUpkeep

/-!
# The label of the clipboard button

The label should say whether the button pastes: shift is held, and the settings let shift turn copying into pasting.
Pressing the button looks at both, but the label follows only the shift key, and only while the settings allow it.  So
a dialog that changes this setting while shift is held leaves a wrong label, as in
`Session.paste_label_on_copy_button`, and nothing else does: the label is right at all times of a session exactly if the
setting is changed only while shift is not held (`Session.tellsPaste_run_iff`).
-/

namespace DeskCalc

/-! ### The window -/

namespace Window

/-- The clipboard button has the label for pasting exactly if shift is held and may turn copying into pasting. -/
def TellsPaste (w : Window) : Prop :=
  w.clipboardLabel = Label.paste ↔ w.settings.shiftToCopy = true ∧ w.shiftHeld = true

private theorem clipboardLabel_eq_paste_iff (w : Window) : w.clipboardLabel = Label.paste ↔ w.pastes = true := by
  unfold clipboardLabel
  cases w.pastes <;> decide

theorem TellsPaste.start (c : Settings) (previous : Option Double) : (start c previous).TellsPaste := by
  rw [TellsPaste, clipboardLabel_eq_paste_iff]
  exact iff_of_false Bool.false_ne_true fun h => Bool.false_ne_true h.2

/-- The label follows the shift key. -/
theorem TellsPaste.setShift {w : Window} (h : w.TellsPaste) (held : Bool) : (w.setShift held).TellsPaste := by
  rw [TellsPaste, clipboardLabel_eq_paste_iff] at h ⊢
  show (if w.settings.shiftToCopy then held else w.pastes) = true ↔ w.settings.shiftToCopy = true ∧ held = true
  cases hallowed : w.settings.shiftToCopy with
  | true => simp
  | false =>
    -- the label stays as it is, and it was right before because the setting was off then too
    rw [hallowed] at h
    simpa using h

/-- What the shift key has left in the window: whether it is held, and the label. -/
def shiftMarks (w : Window) : Bool × Bool :=
  (w.shiftHeld, w.pastes)

private theorem Taken.shiftMarks_eq [Host] {w w' : Window} {problem : List Char} {outcome : Except Fault Double}
    (h : w.Taken problem outcome w') : w'.shiftMarks = w.shiftMarks := by
  cases h <;> rfl

end Window

/-! ### Events -/

/-- Whether the event presses or releases the shift key. -/
def Event.shift? : Event → Option Bool
  | keyDown .shift _ => some true
  | keyUp .shift => some false
  | _ => none

namespace Desktop

variable [Host] {fn : Elementary} {d : Desktop}

private theorem shiftMarks_deliverAt (fn : Elementary) (d : Desktop) (i : Nat) :
    (d.deliverAt fn i).window.shiftMarks = d.window.shiftMarks := by
  cases hget : d.waiting[i]? with
  | some j =>
    obtain ⟨w, notices, store, log, htaken, h⟩ := exists_deliverAt fn hget
    rw [h]
    exact htaken.shiftMarks_eq
  | none => rw [deliverAt, hget]

private theorem shiftMarks_press (held : d.held = true) (label : List Char) :
    (d.press fn label).window.shiftMarks = d.window.shiftMarks :=
  congrArg (fun x : Setup => (x.shiftHeld, x.pastes)) (setup_press held label)

/-- Pressing the clipboard button pastes or copies as the settings and shift say now, if shift is held in the window
whenever it is held at all. -/
private theorem press_copy (agrees : d.shiftDown = d.window.shiftHeld) :
    d.press fn Label.copy =
      if d.window.settings.shiftToCopy = true ∧ d.window.shiftHeld = true then d.paste fn
      else { d with clipboard := d.window.display } := by
  have hpasting : d.isPasting = true ↔ d.window.settings.shiftToCopy = true ∧ d.window.shiftHeld = true := by
    rw [isPasting, agrees, Bool.or_self, Bool.and_eq_true]
  show (if d.isPasting then d.paste fn else { d with clipboard := d.window.display }) = _
  simp only [hpasting]

end Desktop

namespace Session

section

variable [Host] {fn : Elementary} {s : Session}

/-- Only the shift key changes what it has left. -/
private theorem shiftMarks_react {e : Event} (h : e.shift? = none) :
    (s.react fn e).desktop.window.shiftMarks = s.desktop.window.shiftMarks := by
  cases e with
  | press label _ => exact Desktop.shiftMarks_press s.held label
  | keyDown k text =>
    show (s.desktop.keyDown fn k text).window.shiftMarks = _
    unfold Desktop.keyDown
    split
    · rename_i hk
      rw [hk] at h
      cases h
    · split
      · exact Desktop.shiftMarks_press s.held _
      · rfl
  | keyUp k =>
    show (s.desktop.keyUp k).window.shiftMarks = _
    unfold Desktop.keyUp
    split
    · rename_i hk
      rw [hk] at h
      cases h
    · rfl
  | openDialog =>
    simp only [react]
    split <;> rfl
  | closeDialog play =>
    simp only [react]
    split
    · rename_i dialog _
      obtain ⟨settings, store, notices, log, hend⟩ := s.desktop.exists_endDialog dialog play
      show (s.desktop.endDialog dialog play).1.window.shiftMarks = _
      rw [hend]
      rfl
    · rfl
  | deliver i => exact s.desktop.shiftMarks_deliverAt fn i
  | _ => rfl

private theorem window_react_shift {e : Event} {held : Bool} (h : e.shift? = some held) :
    (s.react fn e).desktop.window = s.desktop.window.setShift held := by
  cases e with
  | keyDown k text =>
    cases k with
    | shift =>
      cases h
      rfl
    | _ => cases h
  | keyUp k =>
    cases k with
    | shift =>
      cases h
      rfl
    | _ => cases h
  | _ => cases h

/-- If the event changes whether shift turns copying into pasting, shift is not held. -/
def SwitchesReleased (fn : Elementary) (s : Session) (e : Event) : Prop :=
  (s.react fn e).desktop.window.settings.shiftToCopy ≠ s.desktop.window.settings.shiftToCopy →
    s.desktop.window.shiftHeld = false

/-- The label stays right exactly if the setting is not changed while shift is held. -/
private theorem tellsPaste_react_iff (h : s.desktop.window.TellsPaste) (e : Event) :
    (s.react fn e).desktop.window.TellsPaste ↔ s.SwitchesReleased fn e := by
  cases hshift : e.shift? with
  | some held =>
    have hwindow : (s.react fn e).desktop.window = s.desktop.window.setShift held := window_react_shift hshift
    rw [SwitchesReleased, hwindow]
    exact iff_of_true (h.setShift held) fun hne => absurd rfl hne
  | none =>
    have hmarks : (s.react fn e).desktop.window.shiftMarks = s.desktop.window.shiftMarks := shiftMarks_react hshift
    obtain ⟨hheld, hpastes⟩ := Prod.mk.inj hmarks
    rw [SwitchesReleased, Window.TellsPaste, Window.clipboardLabel_eq_paste_iff, hheld, hpastes]
    rw [Window.TellsPaste, Window.clipboardLabel_eq_paste_iff] at h
    rw [h]
    generalize (s.react fn e).desktop.window.settings.shiftToCopy = after
    generalize s.desktop.window.settings.shiftToCopy = before
    generalize s.desktop.window.shiftHeld = held
    revert before after held
    decide

/-- The label says at all times of a session what pressing the clipboard button does exactly if the setting for it is
changed only while shift is not held.  If the keyboard does not know otherwise about shift, the button pastes exactly
if the label should say so. -/
theorem tellsPaste_run_iff (fn : Elementary) (c : Settings) (overrides : List (Text × Json)) (store : Store)
    (log : List LogEntry) (es : List Event) :
    let s₀ := opening c overrides store log
    ((∀ es', es' <+: es → (s₀.run fn es').desktop.window.TellsPaste) ↔
        ∀ es' e, es' ++ [e] <+: es → (s₀.run fn es').SwitchesReleased fn e) ∧
      let d := (s₀.run fn es).desktop
      d.shiftDown = d.window.shiftHeld →
        d.press fn Label.copy =
          if d.window.settings.shiftToCopy = true ∧ d.window.shiftHeld = true then d.paste fn
          else { d with clipboard := d.window.display } := by
  intro s₀
  refine ⟨⟨fun htells es' e hprefix => ?_, fun hswitches es' hprefix => ?_⟩, Desktop.press_copy⟩
  · have hbefore := htells es' ((List.prefix_append es' [e]).trans hprefix)
    have hafter := htells (es' ++ [e]) hprefix
    rw [run_concat] at hafter
    exact (tellsPaste_react_iff hbefore e).1 hafter
  · -- the label has to be right before an event for the event to tell whether it is right afterwards
    induction es' using List.reverseRecOn with
    | nil => exact .start c _
    | append_singleton es' e ih =>
      have hbefore := ih ((List.prefix_append es' [e]).trans hprefix)
      rw [run_concat]
      exact (tellsPaste_react_iff hbefore e).2 (hswitches es' e hprefix)

end

/-- Shift is held when a dialog turns the setting off: the button copies under the label for pasting. -/
theorem paste_label_on_copy_button :
    let s := (opening ⟨10, 10, false, false, true, false, by decide, by decide⟩ [] ⟨"", []⟩ []).run .platform
      [.keyDown .shift [], .openDialog, .closeDialog ⟨[(.shiftToCopy, .checked false)], none, false, true⟩]
    s.desktop.window.clipboardLabel = Label.paste ∧ s.desktop.window.settings.shiftToCopy = false ∧
      ¬s.desktop.window.TellsPaste := by
  intro s
  have hlabel : s.desktop.window.clipboardLabel = Label.paste := by decide +kernel
  have hsetting : s.desktop.window.settings.shiftToCopy = false := by decide +kernel
  refine ⟨hlabel, hsetting, fun htells => ?_⟩
  rw [(htells.1 hlabel).1] at hsetting
  cases hsetting

end Session

end DeskCalc
