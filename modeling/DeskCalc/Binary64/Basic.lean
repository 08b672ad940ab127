import DeskCalc.Power

/-!
# Binary64 numbers

Every finite double is a whole number of units of `2 ^ (-1074)`, the least positive double.  A magnitude is kept
in its only normal form, `mantissa * 2 ^ shift` units with fewer than 54 bits of mantissa, and the shift is the
least one possible.  All arithmetic on doubles therefore is arithmetic on natural numbers and integers.

The bit pattern of a magnitude is `shift * 2 ^ 52 + mantissa` (`Magnitude.code`), for subnormal and normal
numbers alike.  Comparisons go through `Double.key`, the value in units; a NaN has no key, so every comparison
with it fails, and the two zeros have the same key.
-/

namespace DeskCalc

/-- A finite magnitude of `mantissa * 2 ^ shift` units of `2 ^ (-1074)`, in normal form. -/
structure Magnitude where
  mantissa : Nat
  shift : Nat
  mantissa_lt : mantissa < 2 ^ 53
  shift_le : shift ≤ 2045
  normal : 2 ^ 52 ≤ mantissa ∨ shift = 0
  deriving DecidableEq, Repr

/-- A double.  There is one NaN: its payload carries no meaning here. -/
inductive Double where
  | nan
  | infinite (negative : Bool)
  | finite (negative : Bool) (size : Magnitude)
  deriving DecidableEq, Repr

namespace Magnitude

/-- The magnitude in units of `2 ^ (-1074)`. -/
def units (a : Magnitude) : Nat :=
  a.mantissa * 2 ^ a.shift

/-- The number of units in one. -/
def unitsPerOne : Nat :=
  2 ^ 1074

def zero : Magnitude :=
  ⟨0, 0, by decide, by decide, Or.inr rfl⟩

instance : Inhabited Magnitude :=
  ⟨zero⟩

/-- The integral part. -/
def whole (a : Magnitude) : Nat :=
  a.units / unitsPerOne

/-- Whether the magnitude is a whole number. -/
def isWhole (a : Magnitude) : Bool :=
  a.units % unitsPerOne == 0

/-- Exponent field and mantissa field, read as one number. -/
def code (a : Magnitude) : Nat :=
  a.shift * 2 ^ 52 + a.mantissa

/-- The magnitude with the given code; codes from `2047 * 2 ^ 52` on are no finite magnitudes. -/
def ofCode (n : Nat) : Option Magnitude :=
  let shift := n / 2 ^ 52 - 1
  if h : n < 2047 * 2 ^ 52 then
    some ⟨n - shift * 2 ^ 52, shift, by omega, by omega, by omega⟩
  else none

theorem units_zero : zero.units = 0 := by
  simp [units, zero]

theorem units_eq_zero_iff (a : Magnitude) : a.units = 0 ↔ a.mantissa = 0 := by
  have h : 2 ^ a.shift ≠ 0 := Nat.pos_iff_ne_zero.1 (Nat.two_pow_pos a.shift)
  rw [units, Nat.mul_eq_zero]
  exact ⟨fun hz => hz.resolve_right h, Or.inl⟩

end Magnitude

namespace Double

def zero (negative : Bool) : Double :=
  finite negative Magnitude.zero

instance : Inhabited Double :=
  ⟨zero false⟩

/-! ### Bit patterns -/

/-- The 64 bits of a double as a number below `2 ^ 64`; the NaN is the quiet one without payload. -/
def toBits : Double → Nat
  | nan => 2047 * 2 ^ 52 + 2 ^ 51
  | infinite s => (if s then 2 ^ 63 else 0) + 2047 * 2 ^ 52
  | finite s a => (if s then 2 ^ 63 else 0) + a.code

def ofBits (bits : Nat) : Double :=
  let negative := 2 ^ 63 ≤ bits
  match Magnitude.ofCode (bits % 2 ^ 63) with
  | some a => finite negative a
  | none => if bits % 2 ^ 63 = 2047 * 2 ^ 52 then infinite negative else nan

/-! ### Classes and signs -/

def isNaN : Double → Bool
  | nan => true
  | _ => false

def isFinite : Double → Bool
  | finite _ _ => true
  | _ => false

def isZero : Double → Bool
  | finite _ a => a.mantissa == 0
  | _ => false

/-- The sign bit; a NaN counts as unsigned. -/
def isNegative : Double → Bool
  | nan => false
  | infinite s => s
  | finite s _ => s

def neg : Double → Double
  | nan => nan
  | infinite s => infinite !s
  | finite s a => finite (!s) a

def abs : Double → Double
  | nan => nan
  | infinite _ => infinite false
  | finite _ a => finite false a

/-- The magnitude of `x` with the sign `negative`. -/
def withSign (negative : Bool) : Double → Double
  | nan => nan
  | infinite _ => infinite negative
  | finite _ a => finite negative a

/-- Whether the number is finite and whole. -/
def isWhole : Double → Bool
  | finite _ a => a.isWhole
  | _ => false

/-- Whether the number is an odd integer; infinities and NaN are not. -/
def isOddInteger : Double → Bool
  | finite _ a => a.isWhole && a.whole % 2 == 1
  | _ => false

/-! ### Order -/

/-- A finite number in units of `2 ^ (-1074)`, with its sign. -/
def signedUnits (negative : Bool) (a : Magnitude) : Int :=
  if negative then -(a.units : Int) else a.units

/-- The value in units; the infinities lie beyond every finite number. -/
def key : Double → Option Int
  | nan => none
  | infinite s => some (if s then -(2 ^ 2098 : Nat) else (2 ^ 2098 : Nat))
  | finite s a => some (signedUnits s a)

def lt (x y : Double) : Bool :=
  match x.key, y.key with
  | some a, some b => a < b
  | _, _ => false

def le (x y : Double) : Bool :=
  match x.key, y.key with
  | some a, some b => a ≤ b
  | _, _ => false

/-- Numerical equality: the two zeros are equal, a NaN equals nothing. -/
def numEq (x y : Double) : Bool :=
  match x.key, y.key with
  | some a, some b => a == b
  | _, _ => false

end Double

end DeskCalc
