import DeskCalc.Decimal.Reading
import DeskCalc.Json.Reading
import DeskCalc.Json.Writing
import DeskCalc.Settings
import DeskCalc.Store

/-!
# The files of the calculator

The settings file and the file with a description for each setting hold JSON objects.  A file that is missing or is
no JSON counts as an empty object; every other obstacle is reported (`FileError`).  The settings of the calculator
come from the settings file, and overrides are changes on top of it (`Files.loadSettings`).

The previous answer is kept between sessions in a folder of its own, as one line of text.  An answer that cannot be
read is no answer, and one that cannot be written leaves only an entry in the log.
-/

namespace DeskCalc

/-- Why a file gave no JSON object. -/
inductive FileError where
  | store (error : StoreError)
  | undecodable (error : Utf8.Error)
  | tooManyDigits (given : Nat)
  | tooDeep (kind : Json.Kind)
  | notAnObject (kind : Json.Kind) (wanted : String)
  deriving DecidableEq, Repr

def FileError.message : FileError → String
  | store e => e.message
  | undecodable e => e.message
  | tooManyDigits n =>
    s!"Exceeds the limit ({maxDigits} digits) for integer string conversion: value has {n} digits; " ++
      "use sys.set_int_max_str_digits() to increase the limit"
  | tooDeep kind => s!"maximum recursion depth exceeded while decoding a JSON {kind.title} from a unicode string"
  | notAnObject kind wanted => s!"'{kind.name}' object has no attribute '{wanted}'"

/-- Why settings could not be loaded. -/
inductive LoadError where
  | file (error : FileError)
  | settings (error : SettingsError)
  deriving DecidableEq, Repr

def LoadError.message : LoadError → Text
  | file e => e.message
  | settings e => e.message

/-- The fault of a setting that is reported.  Every other error is one of the program. -/
def LoadError.fault? : LoadError → Option SettingFault
  | settings (.value (.unshown _)) => none
  | settings (.value f) => some f
  | _ => none

namespace Files

def settingsPath : StorePath :=
  ["config.json"]

def descriptionsPath : StorePath :=
  ["ui_strings.json"]

/-- The folder that keeps the previous answer. -/
def cacheFolder : StorePath :=
  ["cache"]

/-- The file of the previous answer in a folder. -/
def answerPath (folder : StorePath) : StorePath :=
  folder ++ ["previous_ans.txt"]

/-! ### JSON files -/

section

variable [Host]

/-- The JSON value in a file; nothing if the file is missing or is no JSON. -/
def readJson? (s : Store) (p : StorePath) : Except FileError (Option Json) :=
  match s.read p with
  | .error e => if e.defect = .missing then .ok none else .error (.store e)
  | .ok bytes =>
    match Utf8.decode bytes with
    | .error e => .error (.undecodable e)
    | .ok text =>
      match Json.read text with
      | .ok v => .ok (some v)
      | .error .malformed => .ok none
      | .error (.tooManyDigits n) => .error (.tooManyDigits n)
      | .error (.tooDeep kind) => .error (.tooDeep kind)

/-- The JSON value in a file, or an empty object. -/
def readJson (s : Store) (p : StorePath) : Except FileError Json :=
  (readJson? s p).map fun v => v.getD (.object [])

/-- The members of an object; `wanted` says what they are needed for. -/
def members (wanted : String) : Json → Except FileError (List (Text × Json))
  | .object ms => .ok ms
  | v => .error (.notAnObject v.kind wanted)

/-- The member of a JSON file with the given key, or `fallback`; the key `all` stands for the whole value.  Of a file
that is missing or no JSON every member is an empty object. -/
def member (s : Store) (p : StorePath) (key : Text) (fallback : Json) : Except FileError Json := do
  match ← readJson? s p with
  | none => .ok (.object [])
  | some v =>
    if key = Text.ofString "all" then .ok v
    else
      let ms ← members "get" v
      .ok ((ms.lookup key).getD fallback)

/-- The value of a setting in the settings file, or its default; what is no setting is zero. -/
def settingValue (s : Store) (key : Text) : Except FileError Json :=
  member s settingsPath key (((Setting.ofKey? key).map Setting.default).getD (.integer 0))

/-- The description of a setting; what has none is described by its key. -/
def settingDescription (s : Store) (key : Text) : Except FileError Json :=
  member s descriptionsPath key (.string key)

/-- The settings of the calculator, with what was logged on the way. -/
def loadSettings (s : Store) (overrides : List (Text × Json)) : List LogEntry × Except LoadError Settings :=
  match readJson s settingsPath with
  | .error e => ([], .error (.file e))
  | .ok v =>
    match members "items" v with
    | .error e => ([], .error (.file e))
    | .ok entries =>
      let loaded :=
        match Settings.fromEntries entries with
        | .error f => .error (.settings (.value f))
        | .ok c => (c.replace overrides).mapError .settings
      (Settings.unknownKeys entries, loaded)

end

/-- The text of a settings file with the given entries. -/
def settingsText (entries : List (Text × Json)) : List UInt8 :=
  Utf8.encode (Json.object entries).write

/-- Writes a settings file.  Without success the store stays as it is and the failure is logged. -/
def saveSettings (s : Store) (entries : List (Text × Json)) : Except LogEntry Store :=
  match s.write settingsPath (settingsText entries) with
  | .ok saved => .ok saved
  | .error e => .error ⟨.error, .settings, s!"Could not write {s.fullPath settingsPath}: {e.message}"⟩

/-! ### The previous answer -/

/-- The previous answer kept in a folder, if there is one. -/
def loadAnswer (s : Store) (folder : StorePath) : Option Double :=
  match s.read (answerPath folder) with
  | .error _ => none
  | .ok bytes =>
    match Utf8.decode bytes with
    | .error _ => none
    | .ok text => readDouble (strip text)

/-- The text of a kept answer. -/
def answerText (x : Double) : List UInt8 :=
  Utf8.encode (x.text ++ ['\n'])

/-- Keeps an answer in a folder, which is made if it is missing. -/
def saveAnswer (s : Store) (folder : StorePath) (x : Double) : Except LogEntry Store :=
  match s.makeFolder folder >>= fun t => t.write (answerPath folder) (answerText x) with
  | .ok saved => .ok saved
  | .error e =>
    .error ⟨.error, .settings, s!"Error while writing previous answer to {s.fullPath folder}: {e.message}"⟩

end Files

end DeskCalc
