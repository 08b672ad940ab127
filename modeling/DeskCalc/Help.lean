import DeskCalc.Function

/-!
# The help text

The usage text lists the constants, the functions by the number of their arguments, and the operators.  Names are
sorted.
-/

namespace DeskCalc

/-- The names of the functions with `n` arguments, sorted. -/
def functionNames (n : Nat) : List String :=
  ((Function.all.filter fun f => f.arity == n).map Function.name).mergeSort fun a b => a ≤ b

/-- The names of the constants, sorted. -/
def constantNames : List String :=
  (Constant.all.map Constant.name).mergeSort fun a b => a ≤ b

def helpLines : List String :=
  ["Postfix Calculator",
    "",
    "Constants",
    "  " ++ ", ".intercalate constantNames,
    "",
    "Functions (one argument)",
    "  " ++ ", ".intercalate ((functionNames 1).map (· ++ "(x)")),
    "",
    "Functions (two arguments)",
    "  " ++ ", ".intercalate ((functionNames 2).map (· ++ "(x, y)")),
    "",
    "Operators",
    "  + - * / ^ (** is the same as ^), unary -",
    "",
    "Other",
    "  _       previous answer",
    "  2pi     implicit multiplication",
    "  sin(30  unclosed parentheses are closed automatically"]

def helpText : String :=
  "\n".intercalate helpLines

end DeskCalc
