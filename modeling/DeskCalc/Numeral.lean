import DeskCalc.Decimal.Places
import DeskCalc.Fault

/-!
# Writing results

A result is written in a base from 2 to 36 with at most `fix` digits after the point (`plainNumeral`).  Base ten
rounds the exact value; every other base takes digits off the fraction until none is left or `fix` are written.  For
display, the digits before the point are grouped in threes and right-aligned (`shownNumeral`).

A decimal numeral can have at most `2 ^ 31 - 1` places.
-/

namespace DeskCalc

/-- Why a number of decimal places cannot be written. -/
inductive PlacesDefect where
  | unshown (error : Json.ShowError)
  | negative
  | beyondPrecision
  | beyondCounting
  deriving DecidableEq, Repr

def PlacesDefect.message : PlacesDefect → String
  | unshown e => e.message
  | negative => "Format specifier missing precision"
  | beyondPrecision => "precision too big"
  | beyondCounting => "Too many decimal digits in format string"

inductive NumeralError where
  | setting (fault : SettingFault)
  | places (defect : PlacesDefect)
  deriving DecidableEq, Repr

def NumeralError.message : NumeralError → Text
  | setting f => f.message
  | places d => d.message

/-- The number of decimal places that `fix` asks for by its numeral. -/
def decimalPlaces (fix : Int) : Except PlacesDefect Nat :=
  match Json.integerForm fix with
  | .error e => .error (.unshown e)
  | .ok _ =>
    if fix < 0 then .error .negative
    else if 2 ^ 63 ≤ fix.toNat then .error .beyondCounting
    else if 2 ^ 31 ≤ fix.toNat then .error .beyondPrecision
    else .ok fix.toNat

/-- At most `n` digits of the fraction `f` in base `b`, until nothing is left. -/
def fractionDigits (b : Nat) : Nat → Double → List Nat
  | 0, _ => []
  | n + 1, f =>
    if f.isZero then []
    else
      let scaled := f.mul (Double.ofNat b)
      let digit := match scaled with
        | .finite _ a => a.whole
        | _ => 0
      digit :: fractionDigits b n (scaled.sub (Double.ofNat digit))

/-- A magnitude in base `b` with at most `n` digits after the point. -/
def radixNumeral (b n : Nat) (a : Magnitude) : List Char :=
  let fraction := (Double.finite false a).sub (Double.ofNat a.whole)
  match (fractionDigits b n fraction).map digitChar with
  | [] => numeral b a.whole
  | ds => numeral b a.whole ++ '.' :: ds

/-- The minus sign of a number below zero. -/
def signOf (negative : Bool) (a : Magnitude) : List Char :=
  if negative && a.mantissa != 0 then ['-'] else []

/-- A number in base `base` with at most `fix` digits after the point. -/
def plainNumeral (base fix : Int) (x : Double) : Except NumeralError (List Char) :=
  if base < 2 ∨ 36 < base then .error (.setting .radix)
  else
    match x with
    | .nan => .ok ['n', 'a', 'n']
    | .infinite s => .ok (if s then ['-', 'i', 'n', 'f'] else ['i', 'n', 'f'])
    | .finite s a =>
      if base = 10 then
        match decimalPlaces fix with
        | .ok places => .ok (signOf s a ++ a.trimmed places)
        | .error d => .error (.places d)
      else .ok (signOf s a ++ radixNumeral base.toNat fix.toNat a)

/-! ### Display -/

/-- A text read from its end, with a comma before every third character but a minus sign; `i` characters have gone
before. -/
def groupFromEnd (i : Nat) : List Char → List Char
  | [] => []
  | c :: rest =>
    if i % 3 = 0 ∧ i ≠ 0 ∧ c ≠ '-' then ',' :: c :: groupFromEnd (i + 1) rest
    else c :: groupFromEnd (i + 1) rest

/-- A text in groups of three characters, counted from its end. -/
def grouped (s : List Char) : List Char :=
  (groupFromEnd 0 s.reverse).reverse

/-- The text with blanks before it, up to ten characters. -/
def rightAligned (s : List Char) : List Char :=
  s.leftpad 10 ' '

/-- A numeral for display: the part before the point grouped and right-aligned. -/
def displayForm (s : List Char) : List Char :=
  rightAligned (grouped (s.takeWhile (· != '.'))) ++ s.dropWhile (· != '.')

/-- A number as it is displayed. -/
def shownNumeral (base fix : Int) (x : Double) : Except NumeralError (List Char) :=
  (plainNumeral base fix x).map displayForm

end DeskCalc
