/-!
# Powers

Powers of natural numbers are those of `Nat.pow`.  This instance comes before any other one, so a power is the same
term in every module, whatever else the module imports.
-/

namespace DeskCalc

@[default_instance high]
instance (priority := 2000) natPower : Pow Nat Nat :=
  ⟨Nat.pow⟩

end DeskCalc
