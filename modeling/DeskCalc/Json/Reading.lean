import DeskCalc.Decimal.Reading
import DeskCalc.Json

/-!
# Reading JSON

A strict reader, with three additions to the standard: the numbers `NaN`, `Infinity` and `-Infinity`.  A numeral
without fraction and exponent is an integer, of at most `maxDigits` digits; every other one is the nearest double.
Of two members with one key the last one counts.  Two escapes that are the halves of a surrogate pair stand for one
character, and a half without its other half is kept as a lone surrogate.

How deep arrays and objects may be nested is a matter of the host (`Host.readingDepth`).  The reader of values is
called with more fuel than the text has characters, and every call consumes one.
-/

namespace DeskCalc

namespace Json

inductive ReadError where
  | malformed
  | tooManyDigits (count : Nat)
  | tooDeep (kind : Kind)
  deriving DecidableEq, Repr

def isSpace (c : Char) : Bool :=
  c == ' ' || c == '\t' || c == '\n' || c == '\r'

def skipSpace (s : List Char) : List Char :=
  s.dropWhile isSpace

/-! ### Strings -/

def hexVal? (c : Char) : Option Nat :=
  if '0' ≤ c ∧ c ≤ '9' then some (c.toNat - 48)
  else if 'a' ≤ c ∧ c ≤ 'f' then some (c.toNat - 87)
  else if 'A' ≤ c ∧ c ≤ 'F' then some (c.toNat - 55)
  else none

/-- The number of four hexadecimal digits. -/
def hexQuad? (a b c d : Char) : Option Nat := do
  let a ← hexVal? a
  let b ← hexVal? b
  let c ← hexVal? c
  let d ← hexVal? d
  return ((a * 16 + b) * 16 + c) * 16 + d

/-- The character that the second character of a short escape stands for. -/
def shortEscape? : Char → Option Char
  | '"' => some '"'
  | '\\' => some '\\'
  | '/' => some '/'
  | 'b' => some '\x08'
  | 'f' => some '\x0c'
  | 'n' => some '\n'
  | 'r' => some '\r'
  | 't' => some '\t'
  | _ => none

/-- The text up to the closing quote. -/
def readText : List Char → Except ReadError (Text × List Char)
  | [] => .error .malformed
  | '"' :: rest => .ok ([], rest)
  | '\\' :: 'u' :: a :: b :: c :: d :: rest =>
    match hexQuad? a b c d with
    | none => .error .malformed
    | some n => (readText rest).map fun r => (Text.join (.ofUnit n) r.1, r.2)
  | '\\' :: e :: rest =>
    match shortEscape? e with
    | none => .error .malformed
    | some c => (readText rest).map fun r => (.char c :: r.1, r.2)
  | c :: rest =>
    if c.toNat < 0x20 ∨ c = '\\' then .error .malformed
    else (readText rest).map fun r => (.char c :: r.1, r.2)

/-! ### Numbers -/

/-- The digits after a point, if there are any. -/
def readFraction : List Char → List Char × List Char
  | '.' :: rest =>
    let ds := rest.takeWhile isAsciiDigit
    if ds.isEmpty then ([], '.' :: rest) else (ds, rest.dropWhile isAsciiDigit)
  | s => ([], s)

/-- The power of ten after the letter `e`, if there is one. -/
def readPower (s : List Char) : Option Int × List Char :=
  match s with
  | c :: rest =>
    if c = 'e' ∨ c = 'E' then
      let (negative, unsigned) := splitSign rest
      let ds := unsigned.takeWhile isAsciiDigit
      if ds.isEmpty then (none, s)
      else
        let e : Int := digitsNat ds
        (some (if negative then -e else e), unsigned.dropWhile isAsciiDigit)
    else (none, s)
  | [] => (none, [])

/-- A number, whose sign has been read. -/
def readNumber (negative : Bool) (s : List Char) : Except ReadError (Json × List Char) :=
  let whole := if s.head? = some '0' then ['0'] else s.takeWhile isAsciiDigit
  if whole.isEmpty then .error .malformed
  else
    let (fraction, afterFraction) := readFraction (s.drop whole.length)
    let (power, rest) := readPower afterFraction
    if fraction.isEmpty && power.isNone then
      if maxDigits < whole.length then .error (.tooManyDigits whole.length)
      else
        let n : Int := digitsNat whole
        .ok (integer (if negative then -n else n), rest)
    else
      let e := power.getD 0 - fraction.length
      .ok (float (Double.ofDecimal negative (digitsNat (whole ++ fraction)) e), rest)

/-! ### Values -/

/-- The words that stand for values. -/
def wordValues : List (List Char × Json) :=
  [(['n', 'u', 'l', 'l'], null), (['t', 'r', 'u', 'e'], bool true), (['f', 'a', 'l', 's', 'e'], bool false),
    (['N', 'a', 'N'], float .nan), ("Infinity".toList, float (.infinite false)),
    ("-Infinity".toList, float (.infinite true))]

/-- A word or a number. -/
def readScalar (s : List Char) : Except ReadError (Json × List Char) :=
  match wordValues.find? fun w => w.1.isPrefixOf s with
  | some (word, v) => .ok (v, s.drop word.length)
  | none =>
    match s with
    | '-' :: rest => readNumber true rest
    | _ => readNumber false s

mutual

/-- A value at the beginning of the text, with room for `depth` levels of nesting. -/
def readValue (fuel depth : Nat) (s : List Char) : Except ReadError (Json × List Char) :=
  match fuel with
  | 0 => .error .malformed
  | fuel + 1 =>
    match s with
    | '"' :: rest => (readText rest).map fun r => (string r.1, r.2)
    | '[' :: rest =>
      match depth, skipSpace rest with
      | 0, _ => .error (.tooDeep .array)
      | _ + 1, ']' :: rest => .ok (array [], rest)
      | depth + 1, rest => (readItems fuel depth rest).map fun r => (array r.1, r.2)
    | '\x7b' :: rest =>
      match depth, skipSpace rest with
      | 0, _ => .error (.tooDeep .object)
      | _ + 1, '\x7d' :: rest => .ok (object [], rest)
      | depth + 1, rest => (readMembers fuel depth [] rest).map fun r => (object r.1, r.2)
    | s => readScalar s

/-- The items of an array up to its closing bracket. -/
def readItems (fuel depth : Nat) (s : List Char) : Except ReadError (List Json × List Char) :=
  match fuel with
  | 0 => .error .malformed
  | fuel + 1 => do
    let (v, rest) ← readValue fuel depth s
    match skipSpace rest with
    | ',' :: rest =>
      let (items, rest) ← readItems fuel depth (skipSpace rest)
      return (v :: items, rest)
    | ']' :: rest => return ([v], rest)
    | _ => .error .malformed

/-- The members of an object up to its closing brace, after `members`. -/
def readMembers (fuel depth : Nat) (members : List (Text × Json)) (s : List Char) :
    Except ReadError (List (Text × Json) × List Char) :=
  match fuel with
  | 0 => .error .malformed
  | fuel + 1 =>
    match s with
    | '"' :: rest => do
      let (key, rest) ← readText rest
      match skipSpace rest with
      | ':' :: rest =>
        let (v, rest) ← readValue fuel depth (skipSpace rest)
        let members := setMember key v members
        match skipSpace rest with
        | ',' :: rest => readMembers fuel depth members (skipSpace rest)
        | '\x7d' :: rest => return (members, rest)
        | _ => .error .malformed
      | _ => .error .malformed
    | _ => .error .malformed

end

/-- The value that a whole text stands for. -/
def read [Host] (s : List Char) : Except ReadError Json := do
  let (v, rest) ← readValue (2 * s.length + 2) Host.readingDepth (skipSpace s)
  if (skipSpace rest).isEmpty then return v else .error .malformed

end Json

end DeskCalc
