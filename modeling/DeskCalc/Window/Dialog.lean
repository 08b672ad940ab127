import DeskCalc.Settings.Files
import DeskCalc.Window.Appearance

/-!
# The settings dialog

The dialog shows the settings of the settings file, without any overrides: a check box for a setting that is on or
off, and an input field for a number, which is empty at first and shows the present number behind it.  On
acceptance (`Dialog.accept`) an empty field keeps its number, every other field has to hold a whole number, and the
numbers have to be in range; else the dialog is refused and stays open.
-/

namespace DeskCalc

/-- Whether a setting is on or off rather than a number. -/
def Setting.isSwitch : Setting → Bool
  | fix | base => false
  | _ => true

/-- What a field of the dialog shows at first: a number behind an empty field, or a check box. -/
inductive FieldContent where
  | placeholder (number : Text)
  | checkBox (checked : Bool)
  deriving DecidableEq, Repr

structure DialogField where
  setting : Setting
  label : Text
  content : FieldContent
  deriving DecidableEq, Repr

/-- What the user enters in a field. -/
inductive FieldInput where
  | typed (text : List Char)
  | checked (on : Bool)
  deriving DecidableEq, Repr

/-- How the dialog ends. -/
inductive DialogEnd where
  | accepted
  | rejected
  | refused
  deriving DecidableEq, Repr

/-- Why the entered settings are refused. -/
inductive Refusal where
  | notAWholeNumber (setting : Setting) (text : List Char)
  | setting (fault : SettingFault)
  deriving DecidableEq, Repr

def Refusal.message : Refusal → Text
  | notAWholeNumber s text =>
    s!"Error in input for '{s.key}':\n\n" ++ "'" ++ String.ofList text ++ "' is not a whole number."
  | setting f => f.report.shown

/-- The open dialog: the settings it was opened with, and what is entered now. -/
structure Dialog where
  settings : Settings
  fields : List DialogField
  typed : Setting → List Char
  checked : Setting → Bool

namespace Dialog

/-- The description of a setting; what is not described by a text is described by its key. -/
def describe (descriptions : List (Text × Json)) (s : Setting) : Text :=
  match descriptions.lookup (Text.ofString s.key) with
  | some (.string text) => text
  | _ => s.key

/-- The field for a setting. -/
def fieldFor (c : Settings) (descriptions : List (Text × Json)) (s : Setting) : DialogField :=
  match c.draft s with
  | .integer n => ⟨s, describe descriptions s ++ Text.ofString ":", .placeholder (toString n)⟩
  | v => ⟨s, describe descriptions s, .checkBox v.truthy⟩

/-- The dialog for settings, with nothing entered. -/
def ofSettings (c : Settings) (descriptions : List (Text × Json)) : Dialog :=
  ⟨c, Setting.all.map (fieldFor c descriptions), fun _ => [], fun s => (c.draft s).truthy⟩

/-- Opens the dialog on the settings file, with what was logged on the way. -/
def load [Host] (s : Store) : List LogEntry × Except LoadError Dialog :=
  let (log, loaded) := Files.loadSettings s []
  match loaded with
  | .error e => (log, .error e)
  | .ok c =>
    match Files.readJson s Files.descriptionsPath >>= Files.members "get" with
    | .error e => (log, .error (.file e))
    | .ok descriptions => (log, .ok (ofSettings c descriptions))

/-- The dialog after an entry. -/
def enter (d : Dialog) (s : Setting) : FieldInput → Dialog
  | .typed text => { d with typed := fun t => if t = s then text else d.typed t }
  | .checked on => { d with checked := fun t => if t = s then on else d.checked t }

/-- What is entered for one setting; nothing if its number is kept. -/
def entry? (d : Dialog) (s : Setting) : Except Refusal (Option Json) :=
  if s.isSwitch then .ok (some (.bool (d.checked s)))
  else
    match strip (d.typed s) with
    | [] => .ok none
    | text =>
      match readInteger text with
      | some n => .ok (some (.integer n))
      | none => .error (.notAWholeNumber s text)

/-- Takes the entry for one setting into a draft. -/
def enterInto (d : Dialog) (draft : Draft) (s : Setting) : Except Refusal Draft := do
  match ← d.entry? s with
  | some v => .ok (draft.set s v)
  | none => .ok draft

/-- The settings that are entered. -/
def accept [Host] (d : Dialog) : Except Refusal Settings := do
  let draft ← Setting.all.foldlM d.enterInto d.settings.draft
  draft.check.mapError .setting

end Dialog

end DeskCalc
