import DeskCalc.Window

/-!
# The look of the window

Style sheets and labels.  They follow from the settings and from whether a calculation is running; only the label of
the clipboard button has a state of its own.
-/

namespace DeskCalc

/-- Lines of a style sheet, each one on a new line and indented. -/
def styleLines (indent : Nat) (ls : List String) : String :=
  String.join (ls.map fun l => "\n" ++ String.ofList (List.replicate indent ' ') ++ l)

/-- The style of a message about a calculation. -/
def messageStyle (dark : Bool) : String :=
  if dark then
    styleLines 16
      ["QMessageBox \x7b background-color: #121212; color: white; \x7d",
        "QLabel \x7b color: white; \x7d",
        "QPushButton \x7b background-color: #2e2e2e; color: white; border: 1px solid #444444; padding: 5px 15px; \x7d",
        "QPushButton:hover \x7b background-color: #444444; \x7d"] ++ styleLines 12 [""]
  else ""

/-- The style of the settings dialog. -/
def dialogStyle (dark : Bool) : String :=
  if dark then
    styleLines 24
      ["QDialog \x7bbackground-color: #121212;\x7d",
        "QLabel \x7bcolor: white;\x7d",
        "QCheckBox \x7bcolor: white;\x7d",
        "QLineEdit \x7bbackground-color: #444444;color: white;border: 1px solid #666666;\x7d",
        "QDialogButtonBox QPushButton \x7bbackground-color: #666666;color: white;\x7d"]
  else ""

namespace Window

def title : String :=
  "Postfix Calculator"

/-- White bold text on a dark ground. -/
def darkStyle : String :=
  "background-color: #121212; color: white; font-weight: bold;"

def style (w : Window) : String :=
  if w.settings.darkMode then "background-color: #121212;" else ""

def displayStyle (w : Window) : String :=
  if w.settings.darkMode then darkStyle else "font-weight: bold;"

/-- The style of every button but the enter button. -/
def buttonStyle (w : Window) : String :=
  if w.settings.darkMode then darkStyle else "font-weight: normal;"

def enterStyle (w : Window) : String :=
  if w.active then "background-color: #FF0000; color: white; font-weight: bold;"
  else "background-color: #007bff; color: white; font-weight: bold;"

def enterLabel (w : Window) : List Char :=
  if w.active then Label.busy else Label.enter

def clipboardLabel (w : Window) : List Char :=
  if w.pastes then Label.paste else Label.copy

end Window

end DeskCalc
