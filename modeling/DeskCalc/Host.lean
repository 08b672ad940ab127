import DeskCalc.Power

/-!
# The host

What the calculator runs on decides some of what it does: how deep calls may be nested, by which rules the options on
a command line are read, and who calls the window with the outcome of a calculation.  All of this is a parameter
(`Host`).  What is proved about the calculator is proved for every host, unless it says what the host is like.
-/

namespace DeskCalc

/-- How the window gets the outcome of a calculation.  It takes the outcome up by itself after the calculation has
ended, and an error on the way reaches nobody (`queued`), or it is called by the calculation, which gets the error back
(`direct`). -/
inductive Handover where
  | queued
  | direct
  deriving DecidableEq, Repr

/-- The rules for a word with several options and for the value `--`, which changed between two releases. -/
inductive OptionRules where
  | earlier
  | later
  deriving DecidableEq, Repr

/-- What lies outside the calculator and decides what it does. -/
class Host where
  handover : Handover
  optionRules : OptionRules
  /-- How deep arrays and objects may be nested in a text that is read. -/
  readingDepth : Nat
  /-- How deep values may lie within a value that is shown in a message. -/
  showingDepth : Nat
  readingDepth_pos : 0 < readingDepth

/-- A host without a queue for the window, and with a stack for a thousand calls, a few of which are taken. -/
instance Host.plain : Host :=
  ⟨.direct, .earlier, 988, 989, by decide⟩

end DeskCalc
