import DeskCalc.Settings
import DeskCalc.Window.Button

/-!
# The window

The window holds a text that is being edited and a display that shows it, except while a calculation is running.
Every edit is recorded in a history (`History`), in which undo goes back and redo forward again.

After a result has been received, typing starts a new text; an operator continues from the previous answer `_`.
-/

namespace DeskCalc

/-- The texts up to now and the texts taken back, each with the nearest one first. -/
structure History where
  undo : List (List Char)
  redo : List (List Char)
  deriving DecidableEq, Repr

namespace History

def start (text : List Char) : History :=
  ⟨[text], []⟩

/-- The history after an edit; what was taken back is forgotten. -/
def record (h : History) (text : List Char) : History :=
  ⟨text :: h.undo, []⟩

/-- The text before the last one, and the history with the last one taken back. -/
def back? (h : History) : Option (List Char × History) :=
  match h.undo with
  | last :: text :: earlier => some (text, ⟨text :: earlier, last :: h.redo⟩)
  | _ => none

/-- The text that was taken back last, and the history with it in its place again. -/
def forward? (h : History) : Option (List Char × History) :=
  match h.redo with
  | text :: later => some (text, ⟨text :: h.undo, later⟩)
  | [] => none

/-- All texts in the order of their times. -/
def timeline (h : History) : List (List Char) :=
  h.undo.reverse ++ h.redo

section

variable {h g : History} {text : List Char}

theorem exists_of_back? (e : h.back? = some (text, g)) :
    ∃ last earlier, h.undo = last :: text :: earlier ∧ g = ⟨text :: earlier, last :: h.redo⟩ := by
  unfold back? at e
  split at e
  · rename_i last text earlier hundo
    cases e
    exact ⟨last, earlier, hundo, rfl⟩
  · cases e

theorem exists_of_forward? (e : h.forward? = some (text, g)) :
    ∃ later, h.redo = text :: later ∧ g = ⟨text :: h.undo, later⟩ := by
  unfold forward? at e
  split at e
  · rename_i text later hredo
    cases e
    exact ⟨later, hredo, rfl⟩
  · cases e

theorem timeline_of_back? (e : h.back? = some (text, g)) : g.timeline = h.timeline := by
  obtain ⟨last, earlier, hundo, rfl⟩ := exists_of_back? e
  simp [timeline, hundo]

theorem timeline_of_forward? (e : h.forward? = some (text, g)) : g.timeline = h.timeline := by
  obtain ⟨later, hredo, rfl⟩ := exists_of_forward? e
  simp [timeline, hredo]

end

end History

/-- The state of the window.  `pastes` says what the label of the clipboard button promises. -/
structure Window where
  settings : Settings
  previous : Option Double
  text : List Char
  display : List Char
  history : History
  received : Bool
  active : Bool
  shiftHeld : Bool
  pastes : Bool
  deriving DecidableEq, Repr

namespace Window

def start (settings : Settings) (previous : Option Double) : Window :=
  ⟨settings, previous, ['0'], ['0'], History.start ['0'], false, false, false, false⟩

/-- Shows and records a new text. -/
def edit (w : Window) (text : List Char) : Window :=
  { w with text := text, display := text, history := w.history.record text, received := false }

/-- Shows the text of the window again; a received result counts as edited. -/
def refresh (w : Window) : Window :=
  { w with display := w.text, received := false }

/-- Goes to another place in the history. -/
def moveTo (w : Window) : Option (List Char × History) → Window
  | some (text, history) => { w with text := text, display := text, history := history, received := false }
  | none => w.refresh

def undo (w : Window) : Window :=
  w.moveTo w.history.back?

def redo (w : Window) : Window :=
  w.moveTo w.history.forward?

/-- The text without its last character; an empty text is zero. -/
def shortened (text : List Char) : List Char :=
  if text.dropLast = [] then ['0'] else text.dropLast

/-- The operators that continue from a result. -/
def continuing : List (List Char) :=
  [['+'], ['-'], ['*'], ['/'], ['^']]

/-- The text that a typed text is added to. -/
def textBefore (w : Window) (typed : List Char) : List Char :=
  let text :=
    if w.received then
      if typed ∈ continuing then ['_'] else ['0']
    else w.text
  if text = ['0'] then [] else text

/-- Adds a typed text. -/
def type (w : Window) (typed : List Char) : Window :=
  w.edit (w.textBefore typed ++ typed)

/-- Adds a pasted text, or puts it in the place of a zero or a result. -/
def paste (w : Window) (pasted : List Char) : Window :=
  if w.text = ['0'] ∨ w.received then w.edit pasted else w.edit (w.text ++ pasted)

/-- Keeps what the keyboard says about the shift key; the label of the clipboard button follows if the settings let
shift change it. -/
def setShift (w : Window) (held : Bool) : Window :=
  { w with shiftHeld := held, pastes := if w.settings.shiftToCopy then held else w.pastes }

/-- Shows that a calculation is running. -/
def wait (w : Window) : Window :=
  { w with active := true, display := ['.', '.', '.'] }

/-- Shows a text once a calculation has ended without a result. -/
def release (w : Window) (shown : List Char) : Window :=
  { w with active := false, display := shown }

/-- Takes a result as the previous answer. -/
def receive (w : Window) (x : Double) : Window :=
  { w with active := false, previous := some x, received := true }

/-- Shows the numeral of a received result; it is recorded if it is new. -/
def showResult (w : Window) (numeral : List Char) : Window :=
  { w with
    text := numeral
    display := numeral
    history := if w.history.undo.head? = some numeral then w.history else w.history.record numeral }

end Window

end DeskCalc
