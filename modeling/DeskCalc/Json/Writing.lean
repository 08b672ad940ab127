import DeskCalc.Json

/-!
# Writing JSON

Members and items stand on lines of their own, indented by four blanks for each level.  All characters beyond
printable ASCII are escaped, so the text is ASCII.
-/

namespace DeskCalc

namespace Json

/-- The escape of a code unit. -/
def unitEscape (n : Nat) : List Char :=
  '\\' :: 'u' :: hexadecimal 4 n

/-- One character. -/
def writeChar (c : Char) : List Char :=
  if c = '"' then ['\\', '"']
  else if c = '\\' then ['\\', '\\']
  else if c = '\n' then ['\\', 'n']
  else if c = '\r' then ['\\', 'r']
  else if c = '\t' then ['\\', 't']
  else if c = '\x0c' then ['\\', 'f']
  else if c = '\x08' then ['\\', 'b']
  else if 0x20 ≤ c.toNat ∧ c.toNat ≤ 0x7E then [c]
  else if c.toNat < 0x10000 then unitEscape c.toNat
  else
    let n := c.toNat - 0x10000
    unitEscape (0xD800 + n / 0x400) ++ unitEscape (0xDC00 + n % 0x400)

/-- One code point of a string. -/
def writeCodePoint : CodePoint → List Char
  | .char c => writeChar c
  | p => unitEscape p.toNat

def writeString (s : Text) : List Char :=
  '"' :: s.flatMap writeCodePoint ++ ['"']

def writeFloat : Double → List Char
  | .nan => ['N', 'a', 'N']
  | .infinite s => if s then "-Infinity".toList else "Infinity".toList
  | x => x.text

/-- A new line at a level of nesting. -/
def newLine (level : Nat) : List Char :=
  '\n' :: List.replicate (4 * level) ' '

mutual

/-- A value at a level of nesting. -/
def writeAt (level : Nat) : Json → List Char
  | null => ['n', 'u', 'l', 'l']
  | bool b => if b then ['t', 'r', 'u', 'e'] else ['f', 'a', 'l', 's', 'e']
  | integer n => (if n < 0 then ['-'] else []) ++ numeral 10 n.natAbs
  | float x => writeFloat x
  | string s => writeString s
  | array [] => ['[', ']']
  | array items => '[' :: newLine (level + 1) ++ writeItems (level + 1) items ++ newLine level ++ [']']
  | object [] => ['\x7b', '\x7d']
  | object members =>
    '\x7b' :: newLine (level + 1) ++ writeMembers (level + 1) members ++ newLine level ++ ['\x7d']

def writeItems (level : Nat) : List Json → List Char
  | [] => []
  | [v] => writeAt level v
  | v :: rest => writeAt level v ++ ',' :: newLine level ++ writeItems level rest

def writeMembers (level : Nat) : List (Text × Json) → List Char
  | [] => []
  | [(k, v)] => writeString k ++ [':', ' '] ++ writeAt level v
  | (k, v) :: rest =>
    writeString k ++ [':', ' '] ++ writeAt level v ++ ',' :: newLine level ++ writeMembers level rest

end

/-- The text of a value. -/
def write (v : Json) : List Char :=
  writeAt 0 v

end Json

end DeskCalc
