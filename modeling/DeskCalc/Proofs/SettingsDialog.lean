import DeskCalc.Elementary.Platform
import DeskCalc.Proofs.EnteredSettings
import DeskCalc.Proofs.SettingsUpkeep

/-!
# The settings dialog keeps file and window together

As long as only the settings dialog writes the settings file, the file loads in every state of a session, and the
settings in force are those of the file with the overrides laid over them (`Session.InForce`).  A dialog that is
cancelled or refused changes neither; one that is accepted puts the entered settings into the file and, under the
overrides, in force (`Session.EndsWell`).  Both hold along every session (`Session.settings_follow_dialogs`).

The settings of the file are part of the invariant, because they are what the dialog starts from.
-/

namespace DeskCalc

/-! ### Settings under overrides -/

/-- Overrides with known keys and with values that the settings accept; a null is no value. -/
structure ValidOverrides (overrides : List (Text × Json)) : Prop where
  known : ∀ e ∈ overrides, (Setting.ofKey? e.1).isSome
  accepted : ∀ e ∈ overrides, e.2.isNull = false → ∀ s, Setting.ofKey? e.1 = some s → s.Accepts e.2

namespace Settings

/-- The first settings are the second ones with changes laid over them. -/
structure IsOverlay (c file : Settings) (changes : List (Text × Json)) : Prop where
  changed : ∀ s v, lastValue? s (effective changes) = some v → c.draft s = s.kept v
  unchanged : ∀ s, lastValue? s (effective changes) = none → c.draft s = file.draft s

variable {c c' file : Settings} {changes : List (Text × Json)}

private theorem eq_of_draft (h : ∀ s, c.draft s = c'.draft s) : c = c' := by
  have hfix : c.fix = c'.fix := Int.ofNat.inj (Json.integer.inj (h .fix))
  have hbase : c.base = c'.base := Int.ofNat.inj (Json.integer.inj (h .base))
  have hradians : c.radianMode = c'.radianMode := Json.bool.inj (h .radianMode)
  have hdark : c.darkMode = c'.darkMode := Json.bool.inj (h .darkMode)
  have hshift : c.shiftToCopy = c'.shiftToCopy := Json.bool.inj (h .shiftToCopy)
  have hpaste : c.afterPasteEnter = c'.afterPasteEnter := Json.bool.inj (h .afterPasteEnter)
  obtain ⟨fix, base, radians, dark, shift, paste, _, _⟩ := c
  cases hfix
  cases hbase
  cases hradians
  cases hdark
  cases hshift
  cases hpaste
  rfl

theorem IsOverlay.unique (h : c.IsOverlay file changes) (h' : c'.IsOverlay file changes) : c = c' := by
  refine eq_of_draft fun s => ?_
  cases hlast : lastValue? s (effective changes) with
  | some v => rw [h.changed s v hlast, h'.changed s v hlast]
  | none => rw [h.unchanged s hlast, h'.unchanged s hlast]

private theorem isOverlay_of_replace [Host] (known : ∀ e ∈ changes, (Setting.ofKey? e.1).isSome)
    (h : file.replace changes = .ok c) : c.IsOverlay file changes := by
  have hcheck : ((effective changes).foldl Draft.merge file.draft).check = .ok c := by
    rw [replace_of_known known] at h
    exact mapError_eq_ok_iff.1 h
  have hkept := Draft.check_eq_ok_iff.1 hcheck
  refine ⟨fun s v hlast => ?_, fun s hlast => ?_⟩
  · rw [← hkept s, Draft.foldl_merge_apply, hlast]
    rfl
  · rw [← hkept s, Draft.foldl_merge_apply, hlast]
    exact Draft.check_eq_ok_iff.1 file.check_draft s

/-- Valid overrides can be laid over any settings. -/
private theorem exists_replace [Host] (valid : ValidOverrides changes) (file : Settings) :
    ∃ c, file.replace changes = .ok c ∧ c.IsOverlay file changes := by
  have haccepts : ∀ s : Setting, s.Accepts ((effective changes).foldl Draft.merge file.draft s) := by
    intro s
    rw [Draft.foldl_merge_apply]
    cases hlast : lastValue? s (effective changes) with
    | some v =>
      obtain ⟨hmem, hnull⟩ := List.mem_filter.1 (mem_of_lastValue? hlast)
      exact valid.accepted _ hmem (by simpa using hnull) s (Setting.ofKey?_key s)
    | none => exact Draft.exists_check_iff.1 ⟨file, file.check_draft⟩ s
  obtain ⟨c, hc⟩ := Draft.exists_check_iff.2 haccepts
  have hreplace : file.replace changes = .ok c := by
    rw [replace_of_known valid.known, hc]
    rfl
  exact ⟨c, hreplace, isOverlay_of_replace valid.known hreplace⟩

end Settings

/-! ### The end of a dialog -/

/-- Nobody else writes the settings file while the dialog is open. -/
def DialogPlay.Undisturbed (play : DialogPlay) : Prop :=
  play.file = none ∧ play.blocked = false

namespace Desktop

variable {d : Desktop} {dialog : Dialog} {play : DialogPlay} {file : Settings}

private theorem disturb_of_undisturbed (h : play.Undisturbed) : d.disturb play = d := by
  rw [disturb, h.1, h.2]
  rfl

section

variable [Host]

/-- Loading the settings again puts the overrides over those of the file. -/
private theorem exists_reloadSettings_of_loads (valid : ValidOverrides d.overrides)
    (loads : (Files.loadSettings d.store []).2 = .ok file) :
    ∃ c log, d.reloadSettings.1 = { d with window := { d.window with settings := c }, log := log } ∧
      c.IsOverlay file d.overrides := by
  obtain ⟨c, hreplace, hoverlay⟩ := Settings.exists_replace valid file
  have hload : (Files.loadSettings d.store d.overrides).2 = .ok c := by
    rw [Files.loadSettings_eq_replace loads, hreplace]
    rfl
  refine ⟨c, d.log ++ (Files.loadSettings d.store d.overrides).1, ?_, hoverlay⟩
  unfold reloadSettings
  rcases hloaded : Files.loadSettings d.store d.overrides with ⟨log, loaded⟩
  rw [hloaded] at hload
  obtain rfl : loaded = .ok c := hload
  rfl

/-- A dialog that is cancelled or refused leaves everything but notices as it is. -/
private theorem exists_closeDialog_of_refuses {accepted : Bool} (h : accepted = false ∨ dialog.Refuses) :
    ∃ notices, (d.closeDialog dialog accepted).1 = { d with notices := notices } := by
  unfold closeDialog
  split
  · exact ⟨d.notices, rfl⟩
  · rename_i haccepted
    obtain rfl | hrefuses := h
    · exact absurd rfl haccepted
    · split
      · exact ⟨_, rfl⟩
      · rename_i c hc
        exact absurd hrefuses (Dialog.exists_accept_iff.1 ⟨c, hc⟩)

/-- The end of a dialog that has closed with a settings file that loads. -/
private theorem exists_endDialog_of_closeDialog (undisturbed : play.Undisturbed) (valid : ValidOverrides d.overrides)
    {t : Store} {notices : List Notice}
    (hclosed : (d.closeDialog (dialog.filled play) play.accepted).1 = { d with store := t, notices := notices })
    (loads : (Files.loadSettings t []).2 = .ok file) :
    ∃ c notices log, (d.endDialog dialog play).1 =
      { d with window := { d.window with settings := c }, store := t, notices := notices, log := log } ∧
        c.IsOverlay file d.overrides := by
  let ending := (d.closeDialog (dialog.filled play) play.accepted).2
  let told := ({ d with store := t, notices := notices } : Desktop).notify
    (.dialog dialog.fields ending (dialogStyle dialog.settings.darkMode))
  obtain ⟨c, log, hreload, hoverlay⟩ := exists_reloadSettings_of_loads (d := told) valid loads
  refine ⟨c, told.notices, log, ?_, hoverlay⟩
  have hend : d.endDialog dialog play = told.reloadSettings := by
    unfold endDialog
    rw [disturb_of_undisturbed undisturbed]
    show (((d.closeDialog (dialog.filled play) play.accepted).1).notify _).reloadSettings = _
    rw [hclosed]
    rfl
  rw [hend]
  exact hreload

end

end Desktop

/-- Nobody but the program has written the settings file in the event. -/
def Event.Undisturbed : Event → Prop
  | closeDialog play => play.Undisturbed
  | _ => True

namespace Session

section

variable [Host]

/-- The settings file holds the given settings, and they are in force with the overrides laid over them. -/
structure InForce (s : Session) (overrides : List (Text × Json)) (file : Settings) : Prop where
  unblocked : s.desktop.store.isBlocked Files.settingsPath = false
  loads : (Files.loadSettings s.desktop.store []).2 = .ok file
  dialog_settings : ∀ dialog, s.dialog = some dialog → dialog.settings = file
  overrides_eq : s.desktop.overrides = overrides
  overlay : s.desktop.window.settings.IsOverlay file overrides

private theorem react_closeDialog_of_none (fn : Elementary) {s : Session} (h : s.dialog = none) (play : DialogPlay) :
    s.react fn (.closeDialog play) = s := by
  simp only [react]
  split
  · rename_i dialog hdialog
    rw [h] at hdialog
    cases hdialog
  · rfl

/-- A dialog stays open until its end, and is opened on the settings file. -/
private theorem dialog_react (fn : Elementary) (s : Session) {e : Event} (h : ∀ play, e ≠ .closeDialog play) :
    (s.react fn e).dialog = s.dialog ∨ (s.react fn e).dialog = (Dialog.load s.desktop.store).2.toOption := by
  cases e with
  | openDialog =>
    cases hdialog : s.dialog with
    | none => exact .inr (react_openDialog fn hdialog).2
    | some dialog =>
      refine .inl ?_
      simp only [react]
      split
      · exact hdialog
      · rename_i hnone
        rw [hdialog] at hnone
        cases hnone
  | closeDialog play => exact absurd rfl (h play)
  | _ => exact .inl rfl

/-- The end of a dialog on the settings of the file: without success the settings file and the settings in force stay as
they are, else both follow the entered settings. -/
structure EndsWell (fn : Elementary) (s : Session) (file : Settings) (dialog : Dialog) (play : DialogPlay) : Prop where
  settings_eq : (dialog.filled play).settings = file
  kept : play.accepted = false ∨ (dialog.filled play).Refuses →
    (s.react fn (.closeDialog play)).desktop.store = s.desktop.store ∧
      (s.react fn (.closeDialog play)).desktop.window.settings = s.desktop.window.settings
  saved : play.accepted = true → ¬(dialog.filled play).Refuses →
    ∃ entered : Settings, (∀ t, (dialog.filled play).Gives t (entered.draft t)) ∧
      (Files.loadSettings (s.react fn (.closeDialog play)).desktop.store []).2 = .ok entered ∧
      (s.react fn (.closeDialog play)).desktop.window.settings.IsOverlay entered s.desktop.overrides

variable (fn : Elementary) {s : Session} {overrides : List (Text × Json)} {file : Settings} {dialog : Dialog}
  {play : DialogPlay}

/-- The end of a dialog that has closed with a settings file that loads. -/
private theorem InForce.of_closeDialog (h : s.InForce overrides file) (valid : ValidOverrides overrides)
    (hdialog : s.dialog = some dialog) (undisturbed : play.Undisturbed) {t : Store} {notices : List Notice}
    (hclosed : (s.desktop.closeDialog (dialog.filled play) play.accepted).1 =
      { s.desktop with store := t, notices := notices })
    (unblocked : t.isBlocked Files.settingsPath = false) {file' : Settings}
    (loads : (Files.loadSettings t []).2 = .ok file') :
    (s.react fn (.closeDialog play)).InForce overrides file' ∧ (s.react fn (.closeDialog play)).desktop.store = t := by
  obtain ⟨c, notices, log, hend, hoverlay⟩ := Desktop.exists_endDialog_of_closeDialog undisturbed
    (h.overrides_eq ▸ valid) hclosed loads
  obtain ⟨hdesktop, hnone⟩ := react_closeDialog fn hdialog play
  rw [hend] at hdesktop
  refine ⟨⟨?_, ?_, ?_, ?_, ?_⟩, ?_⟩
  · rwa [hdesktop]
  · rwa [hdesktop]
  · intro dialog' hdialog'
    rw [hnone] at hdialog'
    cases hdialog'
  · rw [hdesktop]
    exact h.overrides_eq
  · rw [hdesktop, ← h.overrides_eq]
    exact hoverlay
  · rw [hdesktop]

private theorem InForce.closeDialog_of_refuses (h : s.InForce overrides file) (valid : ValidOverrides overrides)
    (hdialog : s.dialog = some dialog) (undisturbed : play.Undisturbed)
    (refuses : play.accepted = false ∨ (dialog.filled play).Refuses) :
    (s.react fn (.closeDialog play)).InForce overrides file ∧
      (s.react fn (.closeDialog play)).desktop.store = s.desktop.store := by
  obtain ⟨notices, hclosed⟩ := Desktop.exists_closeDialog_of_refuses (d := s.desktop) refuses
  exact h.of_closeDialog fn valid hdialog undisturbed hclosed h.unblocked h.loads

/-- An accepted dialog puts the entered settings into the file. -/
private theorem InForce.closeDialog_of_accept (h : s.InForce overrides file) (valid : ValidOverrides overrides)
    (hdialog : s.dialog = some dialog) (undisturbed : play.Undisturbed) (accepted : play.accepted = true)
    {entered : Settings} (haccept : (dialog.filled play).accept = .ok entered) :
    (s.react fn (.closeDialog play)).InForce overrides entered := by
  obtain ⟨t, hsave, unblocked⟩ := Files.exists_saveSettings h.unblocked h.loads entered.entries
  have hfew : FewDigits entered.fix := by
    refine Dialog.fewDigits_of_accept ?_ haccept
    rw [Dialog.settings_filled, h.dialog_settings dialog hdialog]
    exact Files.fewDigits_of_loadSettings h.loads
  have hclosed : (s.desktop.closeDialog (dialog.filled play) play.accepted).1 =
      { s.desktop with store := t, notices := s.desktop.notices } := by
    rw [accepted]
    simp only [Desktop.closeDialog, haccept, hsave]
    rfl
  exact (h.of_closeDialog fn valid hdialog undisturbed hclosed unblocked (Files.loadSettings_saveSettings hfew hsave)).1

/-- Every end of a dialog is a good one. -/
private theorem InForce.endsWell (h : s.InForce overrides file) (valid : ValidOverrides overrides)
    (hdialog : s.dialog = some dialog) (undisturbed : play.Undisturbed) : s.EndsWell fn file dialog play where
  settings_eq := (dialog.settings_filled play).trans (h.dialog_settings dialog hdialog)
  kept := by
    intro refuses
    obtain ⟨hkept, hstore⟩ := h.closeDialog_of_refuses fn valid hdialog undisturbed refuses
    exact ⟨hstore, hkept.overlay.unique h.overlay⟩
  saved := by
    intro accepted hrefuses
    obtain ⟨entered, haccept⟩ := Dialog.exists_accept_iff.2 hrefuses
    have hsaved := h.closeDialog_of_accept fn valid hdialog undisturbed accepted haccept
    refine ⟨entered, Dialog.accept_eq_ok_iff.1 haccept, hsaved.loads, ?_⟩
    rw [h.overrides_eq]
    exact hsaved.overlay

/-- An opened dialog shows the settings of the file. -/
private theorem settings_of_load {st : Store} (loads : (Files.loadSettings st []).2 = .ok file)
    (h : (Dialog.load st).2.toOption = some dialog) : dialog.settings = file := by
  unfold Dialog.load at h
  rcases hload : Files.loadSettings st [] with ⟨log, loaded⟩
  rw [hload] at h loads
  obtain rfl : loaded = .ok file := loads
  dsimp only at h
  split at h <;> cases h
  rfl

/-- What leaves the settings alone leaves them in force. -/
private theorem InForce.of_keepsSettings (h : s.InForce overrides file) {s' : Session}
    (kept : s.desktop.KeepsSettings s'.desktop) (hdialog : ∀ dialog, s'.dialog = some dialog → dialog.settings = file) :
    s'.InForce overrides file where
  unblocked := kept.store.isBlocked_eq.trans h.unblocked
  loads := by rw [Files.loadSettings_congr kept.store, h.loads]
  dialog_settings := hdialog
  overrides_eq := kept.overrides_eq.trans h.overrides_eq
  overlay := kept.settings_eq ▸ h.overlay

theorem InForce.react (h : s.InForce overrides file) (valid : ValidOverrides overrides) {e : Event}
    (undisturbed : e.Undisturbed) : ∃ file', (s.react fn e).InForce overrides file' := by
  -- only the end of an open dialog can change the file, and only if what is entered is accepted
  by_cases hclose : ∃ play, e = .closeDialog play
  · obtain ⟨play, rfl⟩ := hclose
    cases hdialog : s.dialog with
    | none =>
      refine ⟨file, ?_⟩
      rwa [react_closeDialog_of_none fn hdialog]
    | some dialog =>
      by_cases hrefuses : play.accepted = false ∨ (dialog.filled play).Refuses
      · exact ⟨file, (h.closeDialog_of_refuses fn valid hdialog undisturbed hrefuses).1⟩
      · obtain ⟨haccepted, hnot⟩ := not_or.1 hrefuses
        obtain ⟨entered, haccept⟩ := Dialog.exists_accept_iff.2 hnot
        exact ⟨entered, h.closeDialog_of_accept fn valid hdialog undisturbed (Bool.not_eq_false _ ▸ haccepted) haccept⟩
  · have hne : ∀ play, e ≠ .closeDialog play := fun play heq => hclose ⟨play, heq⟩
    refine ⟨file, h.of_keepsSettings (keepsSettings_react hne) fun dialog hdialog => ?_⟩
    rcases dialog_react fn s hne with heq | hload
    · exact h.dialog_settings dialog (heq ▸ hdialog)
    · exact settings_of_load h.loads (hload ▸ hdialog)

theorem InForce.run (h : s.InForce overrides file) (valid : ValidOverrides overrides) {es : List Event}
    (undisturbed : ∀ e ∈ es, e.Undisturbed) : ∃ file', (s.run fn es).InForce overrides file' := by
  induction es generalizing s file with
  | nil => exact ⟨file, h⟩
  | cons e es ih =>
    obtain ⟨file', h'⟩ := h.react fn valid (undisturbed e List.mem_cons_self)
    exact ih h' fun e he => undisturbed e (List.mem_cons_of_mem _ he)

/-- On a settings file that loads and with valid overrides the window opens.  However the session goes on, as long as
only the dialog writes the settings file, it loads with the settings that are in force under the overrides, and every
end of a dialog is a good one. -/
theorem settings_follow_dialogs {store : Store} {overrides : List (Text × Json)}
    (unblocked : store.isBlocked Files.settingsPath = false)
    (accepted : ∃ file, (Files.loadSettings store []).2 = .ok file) (valid : ValidOverrides overrides) :
    ∃ d, (Desktop.start store overrides).2 = .ok d ∧ ∀ es : List Event, (∀ e ∈ es, e.Undisturbed) →
      ∃ file, ((ofDesktop d).run fn es).InForce overrides file ∧
        ∀ dialog, ((ofDesktop d).run fn es).dialog = some dialog → ∀ play : DialogPlay, play.Undisturbed →
          ((ofDesktop d).run fn es).EndsWell fn file dialog play := by
  obtain ⟨file, loads⟩ := accepted
  obtain ⟨c, hreplace, hoverlay⟩ := Settings.exists_replace valid file
  have hload : (Files.loadSettings store overrides).2 = .ok c := by
    rw [Files.loadSettings_eq_replace loads, hreplace]
    rfl
  rcases hloaded : Files.loadSettings store overrides with ⟨log, loaded⟩
  rw [hloaded] at hload
  obtain rfl : loaded = .ok c := hload
  let d : Desktop := ⟨Window.start c (Files.loadAnswer store Files.cacheFolder), overrides, store, [], false, false, [],
    [], log⟩
  have hstart : (Desktop.start store overrides).2 = .ok d := by
    unfold Desktop.start
    rw [hloaded]
    rfl
  have hinit : (ofDesktop d).InForce overrides file := ⟨unblocked, loads, nofun, rfl, hoverlay⟩
  refine ⟨d, hstart, fun es undisturbed => ?_⟩
  obtain ⟨file', h⟩ := hinit.run fn valid undisturbed
  exact ⟨file', h, fun dialog hdialog play hplay => h.endsWell fn valid hdialog hplay⟩

end

/-- Seven decimal places are entered under an override of two. -/
theorem inForce_seven_under_two :
    let store : Store := ⟨"", [(Files.settingsPath, .file (Files.settingsText [(Text.ofString "base", .integer 2)]))]⟩
    let overrides := [(Text.ofString "fix", Json.integer 2)]
    let es : List Event := [.openDialog, .closeDialog ⟨[(.fix, .typed [' ', '7'])], none, false, true⟩]
    store.isBlocked Files.settingsPath = false ∧ (∃ file, (Files.loadSettings store []).2 = .ok file) ∧
      ValidOverrides overrides ∧ (∀ e ∈ es, e.Undisturbed) ∧
      ∃ d, (Desktop.start store overrides).2 = .ok d ∧
        (∃ file, ((ofDesktop d).run .platform es).InForce overrides file) ∧
        ((ofDesktop d).run .platform es).desktop.window.settings.fix = 2 := by
  intro store overrides es
  have unblocked : store.isBlocked Files.settingsPath = false := by decide +kernel
  have accepted : ∃ file, (Files.loadSettings store []).2 = .ok file :=
    ⟨⟨10, 2, false, false, true, false, by decide, by decide⟩, by decide +kernel⟩
  have valid : ValidOverrides overrides := by
    refine ⟨by decide, fun e he hnull s hs => ?_⟩
    rw [List.mem_singleton.1 he] at hs ⊢
    cases hs
    exact ⟨2, rfl⟩
  have undisturbed : ∀ e ∈ es, e.Undisturbed := by
    intro e he
    rcases List.mem_cons.1 he with rfl | he
    · trivial
    · rw [List.mem_singleton.1 he]
      exact ⟨rfl, rfl⟩
  obtain ⟨d, hstart, hrun⟩ := settings_follow_dialogs .platform unblocked accepted valid
  obtain ⟨file, hfile, -⟩ := hrun es undisturbed
  have hfix := hfile.overlay.changed .fix (.integer 2) rfl
  exact ⟨unblocked, accepted, valid, undisturbed, d, hstart, ⟨file, hfile⟩, Int.ofNat.inj (Json.integer.inj hfix)⟩

end Session

end DeskCalc
