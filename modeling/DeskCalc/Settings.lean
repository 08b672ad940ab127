import DeskCalc.Fault
import DeskCalc.Json
import DeskCalc.Log

/-!
# Settings

Six settings steer the calculator.  Where they come from, they are a draft: one JSON value for each setting.  A draft
is checked (`Draft.check`), the number of decimal places first and the base next; every other setting takes any value
by its truth.  Checked settings (`Settings`) are always in range.

Entries of a settings file are merged into the defaults and unknown keys are left out with a warning
(`Settings.fromEntries`).  A set of changes is stricter about keys (`Settings.replace`), and a null changes nothing.
-/

namespace DeskCalc

/-- The settings, by what they are about. -/
inductive Setting where
  | fix
  | base
  | radianMode
  | darkMode
  | shiftToCopy
  | afterPasteEnter
  deriving DecidableEq, Repr

namespace Setting

def all : List Setting :=
  [fix, base, radianMode, darkMode, shiftToCopy, afterPasteEnter]

/-- The key of a setting in a settings file. -/
def key : Setting → String
  | fix => "fix"
  | base => "base"
  | radianMode => "radian_mode"
  | darkMode => "darkmode"
  | shiftToCopy => "shift_to_copy"
  | afterPasteEnter => "after_paste_enter"

/-- The setting with the given key. -/
def ofKey? (key : Text) : Option Setting :=
  all.find? fun s => Text.ofString s.key == key

/-- The value of a setting that nobody has set. -/
def default : Setting → Json
  | fix | base => .integer 10
  | shiftToCopy => .bool true
  | radianMode | darkMode | afterPasteEnter => .bool false

theorem ofKey?_key (s : Setting) : ofKey? s.key = some s := by
  cases s <;> decide

end Setting

/-- The settings of the calculator: at most `fix` decimal places, numerals in base `base`. -/
structure Settings where
  fix : Nat
  base : Nat
  radianMode : Bool
  darkMode : Bool
  shiftToCopy : Bool
  afterPasteEnter : Bool
  two_le_base : 2 ≤ base := by omega
  base_le : base ≤ 36 := by omega
  deriving DecidableEq, Repr

/-! ### Drafts -/

/-- A value for each setting, not yet checked. -/
abbrev Draft :=
  Setting → Json

namespace Draft

/-- The draft with another value for one setting. -/
def set (d : Draft) (s : Setting) (v : Json) : Draft :=
  fun t => if t = s then v else d t

/-- The settings that a draft describes. -/
def check [Host] (d : Draft) : Except SettingFault Settings :=
  match d .fix with
  | .integer (.ofNat fix) =>
    match d .base with
    | .integer (.ofNat base) =>
      if h : 2 ≤ base ∧ base ≤ 36 then
        .ok ⟨fix, base, (d .radianMode).truthy, (d .darkMode).truthy, (d .shiftToCopy).truthy,
          (d .afterPasteEnter).truthy, h.1, h.2⟩
      else .error .radix
    | _ => .error .radix
  | v => .error (.ofShown v.shown)

end Draft

namespace Settings

/-- The settings as a draft. -/
def draft (c : Settings) : Draft
  | .fix => .integer c.fix
  | .base => .integer c.base
  | .radianMode => .bool c.radianMode
  | .darkMode => .bool c.darkMode
  | .shiftToCopy => .bool c.shiftToCopy
  | .afterPasteEnter => .bool c.afterPasteEnter

theorem check_draft [Host] (c : Settings) : c.draft.check = .ok c := by
  have h : 2 ≤ c.base ∧ c.base ≤ 36 := ⟨c.two_le_base, c.base_le⟩
  simp [Draft.check, draft, Json.truthy, h]

/-- The entries of a settings file that holds these settings. -/
def entries (c : Settings) : List (Text × Json) :=
  Setting.all.map fun s => (s.key, c.draft s)

/-- The settings in one line. -/
def text (c : Settings) : String :=
  let radians := String.ofList (Json.boolForm c.radianMode)
  s!"Configuration(fix={c.fix}, base={c.base}, radian_mode={radians})"

end Settings

/-! ### Settings from entries -/

/-- What keys are given for: new settings or changes of settings. -/
inductive SettingsUse where
  | creation
  | change
  deriving DecidableEq, Repr

def SettingsUse.label : SettingsUse → String
  | creation => "Configuration.__init__()"
  | change => "Configuration.replace()"

/-- A key that cannot be used: no setting has it, or it is the word for the settings themselves. -/
inductive KeyFault where
  | unknown (key : Text)
  | reserved (use : SettingsUse)
  deriving DecidableEq, Repr

/-- The word for the settings themselves. -/
def reservedKey : Text :=
  Text.ofString "self"

def KeyFault.message : KeyFault → Text
  | unknown key =>
    Text.ofString (SettingsUse.creation.label ++ " got an unexpected keyword argument '") ++ key ++ Text.ofString "'"
  | reserved use =>
    Text.ofString (use.label ++ " got multiple values for argument '") ++ reservedKey ++ Text.ofString "'"

/-- Why there are no settings. -/
inductive SettingsError where
  | value (fault : SettingFault)
  | key (fault : KeyFault)
  deriving DecidableEq, Repr

def SettingsError.message : SettingsError → Text
  | value f => f.message
  | key f => f.message

namespace Draft

/-- Merges an entry into the draft; an unknown key has no place in it. -/
def merge (d : Draft) (entry : Text × Json) : Draft :=
  match Setting.ofKey? entry.1 with
  | some s => d.set s entry.2
  | none => d

/-- Merges an entry with a known key. -/
def mergeStrict (d : Draft) (entry : Text × Json) : Except KeyFault Draft :=
  match Setting.ofKey? entry.1 with
  | some s => .ok (d.set s entry.2)
  | none => .error (if entry.1 = reservedKey then .reserved .creation else .unknown entry.1)

/-- The settings that a draft with further entries describes; all keys have to be known. -/
def checkWith [Host] (d : Draft) (entries : List (Text × Json)) : Except SettingsError Settings :=
  match entries.foldlM mergeStrict d with
  | .ok merged => merged.check.mapError .value
  | .error f => .error (.key f)

end Draft

namespace Settings

/-- The settings with the given entries and defaults for the rest. -/
def ofEntries [Host] (entries : List (Text × Json)) : Except SettingsError Settings :=
  Draft.checkWith Setting.default entries

/-- The warnings about the keys that are left out. -/
def unknownKeys (entries : List (Text × Json)) : List LogEntry :=
  (entries.filter fun e => (Setting.ofKey? e.1).isNone).map fun e =>
    ⟨.warning, .settings, "Ignoring unknown setting " ++ quotedText e.1⟩

/-- The settings of a settings file with the given entries. -/
def fromEntries [Host] (entries : List (Text × Json)) : Except SettingFault Settings :=
  (entries.foldl Draft.merge Setting.default).check

/-- The settings after a set of changes. -/
def replace [Host] (c : Settings) (changes : List (Text × Json)) : Except SettingsError Settings :=
  if changes.any fun e => e.1 == reservedKey then .error (.key (.reserved .change))
  else c.draft.checkWith (changes.filter fun e => !e.2.isNull)

end Settings

end DeskCalc
