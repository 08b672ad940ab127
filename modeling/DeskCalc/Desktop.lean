import DeskCalc.Calculation
import DeskCalc.Numeral
import DeskCalc.Window.Notice

/-!
# The window at work

A desktop is the window with what surrounds it: the files, the clipboard, the keyboard and the calculations that have
been started and not yet finished.  `Desktop.perform` is one step of the user or of a calculation.  Notices and log
entries are collected as they come.

A calculation keeps the text, the previous answer and the settings of its start (`Job`).  While one is running no
other one is started.  Its result becomes the previous answer, which is kept in a file too, and its numeral becomes
the text; a fault leaves the text as it is.

Under some settings there are results that have no numeral.  Such a result has become the previous answer when the
error comes up, and what follows is a matter of the host (`Host.handover`).  If the window took the outcome up by
itself, nothing follows: the display is left as it is, and nobody is told.  If the calculation called the window, it
gets the error back and delivers the report of it as a second outcome.
-/

namespace DeskCalc

/-- A calculation that has been started. -/
structure Job where
  problem : List Char
  previous : Option Double
  settings : Settings
  deriving DecidableEq, Repr

structure Desktop where
  window : Window
  overrides : List (Text × Json)
  store : Store
  clipboard : List Char
  shiftDown : Bool
  held : Bool
  waiting : List Job
  notices : List Notice
  log : List LogEntry

/-- What happens while the settings dialog is open: entries in its fields, another program that writes the settings
file or puts a folder in its place, and its end. -/
structure DialogPlay where
  entries : List (Setting × FieldInput)
  file : Option (List UInt8)
  blocked : Bool
  accepted : Bool
  deriving DecidableEq, Repr

/-- A step of the user, or of what surrounds the window. -/
inductive Action where
  | press (label : List Char)
  | keyDown (key : Key) (text : List Char)
  | keyUp (key : Key)
  | openSettings (play : DialogPlay)
  | setClipboard (text : List Char)
  | setShift (down : Bool)
  | hold (on : Bool)
  | finish
  deriving DecidableEq, Repr

/-- The outcome of a calculation. -/
def Job.outcome (fn : Elementary) (j : Job) : Except Fault Double :=
  evaluate fn (.ofRadians j.settings.radianMode) j.settings.fix (.ofOption j.previous) (String.ofList j.problem)

namespace Desktop

def notify (d : Desktop) (n : Notice) : Desktop :=
  { d with notices := d.notices ++ [n] }

def addLog (d : Desktop) (entries : List LogEntry) : Desktop :=
  { d with log := d.log ++ entries }

def mapWindow (d : Desktop) (f : Window → Window) : Desktop :=
  { d with window := f d.window }

/-! ### Calculations -/

/-- Keeps a result as the previous answer, in the window and in its file. -/
def keepAnswer (d : Desktop) (x : Double) : Desktop :=
  let kept := d.mapWindow fun w => w.receive x
  match Files.saveAnswer d.store Files.cacheFolder x with
  | .ok s => { kept with store := s }
  | .error e => kept.addLog [e]

/-- Tells about a fault in a problem. -/
def showFault (d : Desktop) (problem : List Char) (r : Report) : Desktop :=
  (d.notify (.ofReport r (String.ofList problem) d.window.settings.darkMode)).mapWindow fun w => w.release problem

/-- The report of a result that cannot be written. -/
def unwritable (e : NumeralError) (problem : String) : Report :=
  ⟨.general, ReportKind.general.defaultCode, Text.ofString "Unexpected crash: " ++ e.message, some problem⟩

/-- Tells about a result that cannot be written. -/
def showUnwritable (d : Desktop) (problem : List Char) (e : NumeralError) : Desktop :=
  let text := String.ofList problem
  let entry : LogEntry := ⟨.error, .window, "Unexpected error while evaluating " ++ quotedText text⟩
  (d.addLog [entry]).showFault problem (unwritable e text)

section

variable [Host]

/-- Shows a result. -/
def showResult (d : Desktop) (problem : List Char) (x : Double) : Desktop :=
  let kept := d.keepAnswer x
  match plainNumeral d.window.settings.base d.window.settings.fix x with
  | .ok numeral => kept.mapWindow fun w => w.showResult numeral
  | .error e =>
    match Host.handover with
    | .queued => kept
    | .direct => kept.showUnwritable problem e

/-- Shows the outcome of a calculation. -/
def deliver (fn : Elementary) (d : Desktop) (j : Job) : Desktop :=
  match j.outcome fn with
  | .ok x => d.showResult j.problem x
  | .error (.help usage) => (d.notify (.usage usage)).mapWindow fun w => w.release w.text
  | .error f => d.showFault j.problem (f.report (some (String.ofList j.problem)))

/-- The calculation of the window's text. -/
def job (d : Desktop) : Job :=
  ⟨d.window.text, d.window.previous, d.window.settings⟩

/-- Starts a calculation, unless one is running.  It is finished at once if nothing holds it.  No event is taken to
come in after the window has been marked as busy and before the calculation has noted the text, the previous answer and
the settings. -/
def calculate (fn : Elementary) (d : Desktop) : Desktop :=
  if d.window.active then d.addLog [⟨.warning, .window, "A calculation is already running"⟩]
  else
    let started := d.mapWindow Window.wait
    if d.held then { started with waiting := d.waiting ++ [d.job] } else started.deliver fn d.job

/-- Finishes the calculations that wait. -/
def finish (fn : Elementary) (d : Desktop) : Desktop :=
  d.waiting.foldl (deliver fn) { d with waiting := [] }

/-! ### Buttons and keys -/

/-- Pastes the clipboard, and calculates after it if the settings say so.  Blanks around the text are dropped, and no
text is pasted as nothing. -/
def paste (fn : Elementary) (d : Desktop) : Desktop :=
  match strip d.clipboard with
  | [] => d
  | text =>
    let pasted := d.mapWindow fun w => w.paste text
    if d.window.settings.afterPasteEnter then pasted.calculate fn else pasted

/-- Whether the clipboard button pastes: shift does it if the settings allow it. -/
def isPasting (d : Desktop) : Bool :=
  d.window.settings.shiftToCopy && (d.window.shiftHeld || d.shiftDown)

def pressButton (fn : Elementary) (d : Desktop) : Button → Desktop
  | .backspace => d.mapWindow fun w => w.edit (Window.shortened w.text)
  | .clear => d.mapWindow fun w => w.edit ['0']
  | .undo => d.mapWindow Window.undo
  | .redo => d.mapWindow Window.redo
  | .clipboard => if d.isPasting then d.paste fn else { d with clipboard := d.window.display }
  | .enter => d.calculate fn
  | .text s => d.mapWindow fun w => w.type s

def press (fn : Elementary) (d : Desktop) (label : List Char) : Desktop :=
  d.pressButton fn (Button.ofLabel label)

def keyDown (fn : Elementary) (d : Desktop) (k : Key) (text : List Char) : Desktop :=
  if k = .shift then d.mapWindow fun w => w.setShift true
  else
    match k.label? text with
    | some label => d.press fn label
    | none => d

def keyUp (d : Desktop) (k : Key) : Desktop :=
  if k = .shift then d.mapWindow fun w => w.setShift false else d

/-! ### Settings -/

/-- Loads the settings again.  Settings out of range are told to the user and leave the present ones in force. -/
def reloadSettings (d : Desktop) : Desktop × Option LoadError :=
  let (log, loaded) := Files.loadSettings d.store d.overrides
  let logged := d.addLog log
  match loaded with
  | .ok c => (logged.mapWindow fun w => { w with settings := c }, none)
  | .error e =>
    match e.fault? with
    | some f => (logged.notify (.badSettings f), none)
    | none => (logged, some e)

/-- The settings file as others leave it. -/
def disturb (d : Desktop) (play : DialogPlay) : Desktop :=
  let written :=
    match play.file with
    | some bytes => d.store.put Files.settingsPath (.file bytes)
    | none => d.store
  let s := if play.blocked then written.put Files.settingsPath .folder else written
  { d with store := s }

/-- Ends the dialog. -/
def closeDialog (d : Desktop) (dialog : Dialog) (accepted : Bool) : Desktop × DialogEnd :=
  if !accepted then (d, .rejected)
  else
    match dialog.accept with
    | .error r => (d.notify (.refusal r), .refused)
    | .ok c =>
      match Files.saveSettings d.store c.entries with
      | .ok s => ({ d with store := s }, .accepted)
      | .error e => ((d.addLog [e]).notify .unsaved, .refused)

/-- Opens the settings dialog, lets `play` happen, and loads the settings after it.  Files that cannot be read at all
leave the dialog closed or the settings as they are, with an error. -/
def openSettings (d : Desktop) (play : DialogPlay) : Desktop × Option LoadError :=
  let (log, loaded) := Dialog.load d.store
  let opened := d.addLog log
  match loaded with
  | .error e => (opened, some e)
  | .ok dialog =>
    let filled := play.entries.foldl (fun g e => g.enter e.1 e.2) dialog
    let (closed, ending) := (opened.disturb play).closeDialog filled play.accepted
    (closed.notify (.dialog dialog.fields ending (dialogStyle dialog.settings.darkMode))).reloadSettings

/-! ### Steps -/

/-- Opens the window on a store. -/
def start (s : Store) (overrides : List (Text × Json)) : List LogEntry × Except LoadError Desktop :=
  let (log, loaded) := Files.loadSettings s overrides
  let opened := loaded.map fun c =>
    (⟨Window.start c (Files.loadAnswer s Files.cacheFolder), overrides, s, [], false, false, [], [], log⟩ : Desktop)
  (log, opened)

/-- One step; only the settings dialog can end in an error. -/
def perform (fn : Elementary) (d : Desktop) : Action → Desktop × Option LoadError
  | .press label => (d.press fn label, none)
  | .keyDown k text => (d.keyDown fn k text, none)
  | .keyUp k => (d.keyUp k, none)
  | .openSettings play => d.openSettings play
  | .setClipboard text => ({ d with clipboard := text }, none)
  | .setShift down => ({ d with shiftDown := down }, none)
  | .hold on => ({ d with held := on }, none)
  | .finish => (d.finish fn, none)

end

/-- The desktop after its notices and log have been read. -/
def acknowledge (d : Desktop) : Desktop :=
  { d with notices := [], log := [] }

end Desktop

end DeskCalc
