import DeskCalc.Window.Dialog

/-!
# Notices

What the window tells the user in boxes of their own.
-/

namespace DeskCalc

inductive Notice where
  | usage (text : String)
  | faulty (heading : Text) (detail : String) (style : String)
  | refusal (reason : Refusal)
  | unsaved
  | badSettings (fault : SettingFault)
  | dialog (fields : List DialogField) (ending : DialogEnd) (style : String)
  deriving DecidableEq, Repr

namespace Notice

/-- The notice about a fault in a problem. -/
def ofReport (r : Report) (problem : String) (dark : Bool) : Notice :=
  faulty (Text.ofString s!"Error {r.code}: " ++ r.shown) s!"Equation: {problem}" (messageStyle dark)

def title : Notice → String
  | usage _ => "Help"
  | faulty _ _ _ => "Calculation error"
  | refusal _ => "Invalid Input:"
  | unsaved => "Error"
  | badSettings _ => "Configuration error"
  | dialog _ _ _ => "Calculator Settings"

def text : Notice → Text
  | usage text => text
  | faulty heading _ _ => heading
  | refusal r => r.message
  | unsaved => "Settings could not be saved (error in config_manager)."
  | badSettings f => f.report.shown
  | dialog _ _ _ => []

end Notice

end DeskCalc
