import DeskCalc.Proofs.Session
import DeskCalc.Proofs.SettingsText

/-!
# What leaves the settings alone

No button changes the files, the settings or what is known about the shift key (`Desktop.setup_press`).  Of all events
of a session only the end of a settings dialog can change the settings in force or the settings file
(`Session.keepsSettings_react`).  A delivered answer is kept in a file too, but under another path, and whether the
settings file can be read and written depends on nothing but itself and the root.
-/

namespace DeskCalc

/-! ### The settings file -/

namespace Store

variable {s : Store} {p : StorePath} {e : StoreEntry}

/-- Only the root is above the settings file. -/
private theorem isBlocked_settingsPath_iff :
    s.isBlocked Files.settingsPath = true ↔ ∃ bytes, ([], StoreEntry.file bytes) ∈ s.entries := by
  rw [isBlocked, List.any_eq_true]
  constructor
  · rintro ⟨⟨q, entry⟩, hmem, hq⟩
    cases entry with
    | folder => cases hq
    | file bytes =>
      obtain ⟨hne, hle⟩ := Bool.and_eq_true_iff.1 hq
      match q with
      | [] => exact ⟨bytes, hmem⟩
      | [name] => simp_all [Files.settingsPath]
      | name :: name' :: rest => simp [Files.settingsPath] at hle
  · rintro ⟨bytes, hmem⟩
    exact ⟨_, hmem, rfl⟩

private theorem isBlocked_put (hp : p ≠ []) :
    (s.put p e).isBlocked Files.settingsPath = s.isBlocked Files.settingsPath := by
  rw [Bool.eq_iff_iff, isBlocked_settingsPath_iff, isBlocked_settingsPath_iff]
  simp [put, hp.symm]

/-- The settings file is as it was. -/
structure KeepsSettings (s t : Store) : Prop where
  read_eq : t.read Files.settingsPath = s.read Files.settingsPath
  isBlocked_eq : t.isBlocked Files.settingsPath = s.isBlocked Files.settingsPath

theorem KeepsSettings.refl (s : Store) : s.KeepsSettings s :=
  ⟨rfl, rfl⟩

theorem KeepsSettings.trans {s t u : Store} (h : s.KeepsSettings t) (h' : t.KeepsSettings u) : s.KeepsSettings u :=
  ⟨h'.read_eq.trans h.read_eq, h'.isBlocked_eq.trans h.isBlocked_eq⟩

private theorem keepsSettings_put (hp : p ≠ []) (hne : p ≠ Files.settingsPath) (e : StoreEntry) :
    s.KeepsSettings (s.put p e) := by
  refine ⟨?_, isBlocked_put hp⟩
  unfold read
  rw [find?_put, if_neg hne.symm, isBlocked_put hp]
  rfl

end Store

namespace Files

variable {s t : Store} {overrides : List (Text × Json)} {c file : Settings}

/-- An answer is put in its file after its folder has been made. -/
theorem exists_of_saveAnswer {folder : StorePath} {x : Double} (h : saveAnswer s folder x = .ok t) :
    ∃ made, s.makeFolder folder = .ok made ∧ t = made.put (answerPath folder) (.file (answerText x)) := by
  unfold saveAnswer at h
  cases hmake : s.makeFolder folder with
  | error e =>
    rw [hmake] at h
    cases h
  | ok made =>
    rw [hmake] at h
    cases hwrite : made.write (answerPath folder) (answerText x) with
    | error e =>
      simp only [bind, Except.bind, hwrite] at h
      cases h
    | ok saved =>
      simp only [bind, Except.bind, hwrite] at h
      cases h
      exact ⟨made, rfl, Store.eq_put_of_write hwrite⟩

/-- An answer is kept beside the settings file. -/
private theorem keepsSettings_saveAnswer {x : Double} (h : saveAnswer s cacheFolder x = .ok t) : s.KeepsSettings t := by
  obtain ⟨made, hmade, rfl⟩ := exists_of_saveAnswer h
  refine Store.KeepsSettings.trans ?_ (Store.keepsSettings_put (by decide) (by decide) _)
  unfold Store.makeFolder at hmade
  split at hmade
  · cases hmade
    exact .refl s
  · cases hmade
  · split at hmade
    · cases hmade
    · cases hmade
      show s.KeepsSettings (if (s.find? cacheFolder).isSome then s else s.put cacheFolder .folder)
      split
      · exact .refl s
      · exact Store.keepsSettings_put (by decide) (by decide) _

/-- What is loaded depends on nothing but the contents of the settings file. -/
theorem loadSettings_congr [Host] (h : s.KeepsSettings t) : loadSettings t overrides = loadSettings s overrides := by
  unfold loadSettings readJson readJson?
  rw [h.read_eq]

theorem loadSettings_eq_replace [Host] (h : (loadSettings s []).2 = .ok file) :
    (loadSettings s overrides).2 = (file.replace overrides).mapError .settings := by
  obtain ⟨entries, file', hentries, hfile, hreplace⟩ := exists_of_loadSettings h
  rw [file'.replace_nil] at hreplace
  cases hreplace
  exact loadSettings_of_fromEntries hentries hfile

/-- Settings can be saved where settings have been loaded. -/
theorem exists_saveSettings [Host] (unblocked : s.isBlocked settingsPath = false)
    (loads : (loadSettings s []).2 = .ok file) (entries : List (Text × Json)) : ∃ t, saveSettings s entries = .ok t ∧ t.isBlocked settingsPath = false := by
  have hwrite : s.write settingsPath (settingsText entries) =
      .ok (s.put settingsPath (.file (settingsText entries))) := by
    unfold Store.write
    split
    · -- a folder in place of the file could not have been loaded
      rename_i hfolder
      have hread : s.read settingsPath = .error (s.fail .isFolder settingsPath) := by
        rw [Store.read, hfolder]
      obtain ⟨entries, -, hjson, -⟩ := exists_of_loadSettings loads
      unfold readJson readJson? at hjson
      rw [hread] at hjson
      cases hjson
    · rw [unblocked]
      rfl
  refine ⟨s.put settingsPath (.file (settingsText entries)), ?_, (Store.isBlocked_put (by decide)).trans unblocked⟩
  rw [saveSettings, hwrite]

end Files

/-! ### What buttons leave alone -/

/-- The files, the settings and what is known about the shift key. -/
structure Setup where
  store : Store
  overrides : List (Text × Json)
  settings : Settings
  shiftHeld : Bool
  pastes : Bool

namespace Desktop

def setup (d : Desktop) : Setup :=
  ⟨d.store, d.overrides, d.window.settings, d.window.shiftHeld, d.window.pastes⟩

section Buttons

variable [Host] {fn : Elementary} {d : Desktop}

private theorem setup_calculate (held : d.held = true) : (d.calculate fn).setup = d.setup := by
  cases h : d.window.active with
  | true => rw [calculate_of_active h]; rfl
  | false => rw [calculate_of_idle held h]; rfl

private theorem setup_paste (held : d.held = true) : (d.paste fn).setup = d.setup := by
  have hpasted : ∀ text, (d.mapWindow fun w => w.paste text).setup = d.setup := by
    intro text
    show (⟨d.store, d.overrides, (d.window.paste text).settings, (d.window.paste text).shiftHeld,
      (d.window.paste text).pastes⟩ : Setup) = _
    unfold Window.paste
    split <;> rfl
  unfold paste
  split
  · rfl
  · dsimp only
    split
    · have held' : (d.mapWindow fun w => w.paste (strip d.clipboard)).held = true := held
      exact (setup_calculate held').trans (hpasted _)
    · exact hpasted _

/-- A button leaves the setup as it is. -/
theorem setup_press (held : d.held = true) (label : List Char) : (d.press fn label).setup = d.setup := by
  have hmoved : ∀ place : Option (List Char × History), (d.mapWindow fun w => w.moveTo place).setup = d.setup := by
    intro place
    cases place <;> rfl
  unfold press
  cases Button.ofLabel label with
  | undo => exact hmoved _
  | redo => exact hmoved _
  | clipboard =>
    show (if d.isPasting then d.paste fn else { d with clipboard := d.window.display }).setup = _
    split
    · exact setup_paste held
    · rfl
  | enter => exact setup_calculate held
  | _ => rfl

end Buttons

/-! ### What leaves the settings alone -/

/-- The settings in force and the settings file are as they were. -/
structure KeepsSettings (d d' : Desktop) : Prop where
  store : d.store.KeepsSettings d'.store
  overrides_eq : d'.overrides = d.overrides
  settings_eq : d'.window.settings = d.window.settings

variable {fn : Elementary} {d d' : Desktop}

private theorem KeepsSettings.of_eq (store_eq : d'.store = d.store) (overrides_eq : d'.overrides = d.overrides)
    (settings_eq : d'.window.settings = d.window.settings) : d.KeepsSettings d' :=
  ⟨store_eq ▸ .refl d.store, overrides_eq, settings_eq⟩

theorem KeepsSettings.trans {d'' : Desktop} (h : d.KeepsSettings d') (h' : d'.KeepsSettings d'') :
    d.KeepsSettings d'' :=
  ⟨h.store.trans h'.store, h'.overrides_eq.trans h.overrides_eq, h'.settings_eq.trans h.settings_eq⟩

private theorem keepsSettings_keepAnswer (d : Desktop) (x : Double) : d.KeepsSettings (d.keepAnswer x) := by
  unfold keepAnswer
  cases h : Files.saveAnswer d.store Files.cacheFolder x with
  | ok t => exact ⟨Files.keepsSettings_saveAnswer h, rfl, rfl⟩
  | error e => exact .of_eq rfl rfl rfl

private theorem keepsSettings_deliver [Host] (fn : Elementary) (d : Desktop) (j : Job) :
    d.KeepsSettings (d.deliver fn j) := by
  unfold deliver
  cases j.outcome fn with
  | ok x =>
    refine (d.keepsSettings_keepAnswer x).trans ?_
    simp only [showResult]
    split
    · exact .of_eq rfl rfl rfl
    · split <;> exact .of_eq rfl rfl rfl
  | error f => cases f <;> exact .of_eq rfl rfl rfl

private theorem keepsSettings_deliverAt [Host] (fn : Elementary) (d : Desktop) (i : Nat) :
    d.KeepsSettings (d.deliverAt fn i) := by
  unfold deliverAt
  split
  · have hwaiting : d.KeepsSettings { d with waiting := d.waiting.eraseIdx i } := .of_eq rfl rfl rfl
    exact hwaiting.trans (keepsSettings_deliver fn _ _)
  · exact .of_eq rfl rfl rfl

private theorem keepsSettings_press [Host] (held : d.held = true) (label : List Char) :
    d.KeepsSettings (d.press fn label) := by
  have hsetup : (d.press fn label).setup = d.setup := setup_press held label
  exact .of_eq (congrArg Setup.store hsetup) (congrArg Setup.overrides hsetup) (congrArg Setup.settings hsetup)

private theorem keepsSettings_keyDown [Host] (held : d.held = true) (k : Key) (text : List Char) :
    d.KeepsSettings (d.keyDown fn k text) := by
  unfold keyDown
  split
  · exact .of_eq rfl rfl rfl
  · split
    · exact keepsSettings_press held _
    · exact .of_eq rfl rfl rfl

private theorem keepsSettings_keyUp (d : Desktop) (k : Key) : d.KeepsSettings (d.keyUp k) := by
  unfold keyUp
  split <;> exact .of_eq rfl rfl rfl

end Desktop

/-- Nothing but the end of a dialog changes the settings or their file. -/
theorem Session.keepsSettings_react [Host] {fn : Elementary} {s : Session} {e : Event}
    (h : ∀ play, e ≠ .closeDialog play) : s.desktop.KeepsSettings (s.react fn e).desktop := by
  cases e with
  | press label label_ne => exact Desktop.keepsSettings_press s.held label
  | keyDown k text => exact Desktop.keepsSettings_keyDown s.held k text
  | keyUp k => exact s.desktop.keepsSettings_keyUp k
  | openDialog =>
    simp only [react]
    split <;> exact .of_eq rfl rfl rfl
  | closeDialog play => exact absurd rfl (h play)
  | deliver i => exact s.desktop.keepsSettings_deliverAt fn i
  | _ => exact .of_eq rfl rfl rfl

end DeskCalc
