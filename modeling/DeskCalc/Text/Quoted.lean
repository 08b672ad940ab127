import DeskCalc.Decimal.Digits
import DeskCalc.Text.CodePoint
import DeskCalc.Text.Printable

/-!
# Quoted texts

A quoted text shows every code point unambiguously: it stands between single quotes, or between double quotes if
it contains single quotes only; the quote, the backslash and all unprintable characters are escaped, and so are lone
surrogates.
-/

namespace DeskCalc

/-- The hexadecimal numeral of `n` with at least `width` digits. -/
def hexadecimal (width n : Nat) : List Char :=
  (numeral 16 n).leftpad width '0'

/-- The escape of the code point with number `n`, as short as `n` allows. -/
def escapeCode (n : Nat) : List Char :=
  if n < 0x100 then '\\' :: 'x' :: hexadecimal 2 n
  else if n < 0x10000 then '\\' :: 'u' :: hexadecimal 4 n
  else '\\' :: 'U' :: hexadecimal 8 n

/-- One character inside the quotes `quote`. -/
def quoteChar (quote c : Char) : List Char :=
  if c = quote ∨ c = '\\' then ['\\', c]
  else if c = '\t' then ['\\', 't']
  else if c = '\n' then ['\\', 'n']
  else if c = '\r' then ['\\', 'r']
  else if isPrintable c then [c]
  else escapeCode c.toNat

/-- One code point inside the quotes `quote`. -/
def quoteCodePoint (quote : Char) : CodePoint → List Char
  | .char c => quoteChar quote c
  | p => escapeCode p.toNat

/-- The quotes for a text: double ones if it has single quotes and no double ones. -/
def quoteFor (s : Text) : Char :=
  if s.contains (.char '\'') && !s.contains (.char '"') then '"' else '\''

def quoted (s : Text) : List Char :=
  let quote := quoteFor s
  quote :: s.flatMap (quoteCodePoint quote) ++ [quote]

def quotedText (s : Text) : String :=
  String.ofList (quoted s)

/-- The text as characters; lone surrogates, which are none, are escaped. -/
def Text.toString (s : Text) : String :=
  String.ofList <| s.flatMap fun p =>
    match p with
    | .char c => [c]
    | p => escapeCode p.toNat

end DeskCalc
