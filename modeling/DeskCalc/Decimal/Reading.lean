import DeskCalc.Binary64.Nearest
import DeskCalc.Decimal.Digits
import DeskCalc.Text.Blank
import DeskCalc.Text.DecimalDigit

/-!
# Reading numbers

The text of a number may stand between blanks, use the decimal digits of any script and set single underscores
between digits.  `readInteger` takes a sign and digits, `readDouble` in addition a fraction, an exponent and the
words for infinity and NaN.  A decimal becomes the nearest double (`Double.ofDecimal`), whatever its length.

An integer of more than `maxDigits` digits is not read.
-/

namespace DeskCalc

/-- The number that ASCII digits denote. -/
def digitsNat (ds : List Char) : Nat :=
  digitsVal 10 (ds.map asciiDigitVal)

/-- The double nearest to `digits * 10 ^ e`.  Beyond the powers of ten of all doubles the answer is infinite or
zero, so no large power is computed. -/
def Double.ofDecimal (negative : Bool) (digits : Nat) (e : Int) : Double :=
  if digits = 0 then zero negative
  else if 400 < e then infinite negative
  else if e + digits.log2 < -400 then zero negative
  else ofRatio negative (digits * 10 ^ e.toNat) (10 ^ (-e).toNat)

/-- The characters of a number without its underscores, each of which has to stand between two digits. -/
def dropUnderscores (previous : Option Char) : List Char → Option (List Char)
  | [] => some []
  | c :: rest =>
    if c = '_' then
      match previous, rest with
      | some p, n :: _ => if isAsciiDigit p && isAsciiDigit n then dropUnderscores (some c) rest else none
      | _, _ => none
    else (dropUnderscores (some c) rest).map (c :: ·)

/-- The text of a number without blanks around it and underscores in it, its digits turned into ASCII digits. -/
def numberChars (s : List Char) : Option (List Char) :=
  dropUnderscores none ((stripBy isNumberBlank s).map toAsciiDigit)

/-- An optional sign, and what follows it. -/
def splitSign : List Char → Bool × List Char
  | '-' :: rest => (true, rest)
  | '+' :: rest => (false, rest)
  | rest => (false, rest)

/-- An integer: an optional sign and at least one digit. -/
def readInteger (s : List Char) : Option Int := do
  let cs ← numberChars s
  let (negative, ds) := splitSign cs
  if ds.isEmpty || !ds.all isAsciiDigit || maxDigits < ds.length then none
  else if negative then some (-(digitsNat ds : Int)) else some (digitsNat ds)

/-- An exponent: nothing, or the letter `e` and an integer. -/
def readExponent : List Char → Option Int
  | [] => some 0
  | c :: rest =>
    if c = 'e' ∨ c = 'E' then
      let (negative, ds) := splitSign rest
      if ds.isEmpty || !ds.all isAsciiDigit then none
      else if negative then some (-(digitsNat ds : Int)) else some (digitsNat ds)
    else none

/-- An unsigned decimal: digits with an optional point among them, and an optional exponent. -/
def readDecimal (negative : Bool) (cs : List Char) : Option Double :=
  let whole := cs.takeWhile isAsciiDigit
  let afterWhole := cs.dropWhile isAsciiDigit
  let (fraction, rest) := match afterWhole with
    | '.' :: more => (more.takeWhile isAsciiDigit, more.dropWhile isAsciiDigit)
    | _ => ([], afterWhole)
  if whole.isEmpty && fraction.isEmpty then none
  else (readExponent rest).map fun e => Double.ofDecimal negative (digitsNat (whole ++ fraction)) (e - fraction.length)

/-- A double: a decimal, or `inf`, `infinity` or `nan` in any case, with an optional sign. -/
def readDouble (s : List Char) : Option Double := do
  let cs ← numberChars s
  let (negative, rest) := splitSign cs
  let word := String.ofList (rest.map Char.toLower)
  if word == "inf" || word == "infinity" then some (.infinite negative)
  else if word == "nan" then some .nan
  else readDecimal negative rest

end DeskCalc
