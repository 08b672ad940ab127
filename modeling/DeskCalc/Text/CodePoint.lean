/-!
# Texts with surrogates

The escapes of a JSON string stand for UTF-16 units, so a string may hold half of a surrogate pair without the other
half.  Such a half is no character, yet two texts that differ in it are different.  A `Text` is a list of code
points: characters and lone surrogates.
-/

namespace DeskCalc

/-- A character, or a lone surrogate by its distance from `0xD800`. -/
inductive CodePoint where
  | char (c : Char)
  | surrogate (k : Fin 0x800)
  deriving DecidableEq, Repr

abbrev Text :=
  List CodePoint

namespace CodePoint

def toNat : CodePoint → Nat
  | char c => c.toNat
  | surrogate k => 0xD800 + k.val

/-- The code point that a UTF-16 unit names by itself. -/
def ofUnit (n : Nat) : CodePoint :=
  if h : 0xD800 ≤ n ∧ n < 0xE000 then surrogate ⟨n - 0xD800, by omega⟩ else char (Char.ofNat n)

/-- The character of a surrogate pair; the first half of a pair lies below `0xDC00` and the second one does not. -/
def ofPair? (k l : Fin 0x800) : Option CodePoint :=
  if k.val < 0x400 ∧ 0x400 ≤ l.val then some (char (Char.ofNat (0x10000 + k.val * 0x400 + (l.val - 0x400))))
  else none

end CodePoint

namespace Text

def ofChars (s : List Char) : Text :=
  s.map CodePoint.char

def ofString (s : String) : Text :=
  ofChars s.toList

instance : Coe (List Char) Text :=
  ⟨ofChars⟩

instance : Coe String Text :=
  ⟨ofString⟩

theorem ofChars_inj {s t : List Char} : ofChars s = ofChars t ↔ s = t :=
  List.map_inj_right fun _ _ h => CodePoint.char.inj h

theorem ofString_inj {s t : String} : ofString s = ofString t ↔ s = t := by
  rw [ofString, ofString, ofChars_inj, String.toList_inj]

/-- The text with a code point before it; two halves that meet make a pair. -/
def join (p : CodePoint) (s : Text) : Text :=
  match p, s with
  | .surrogate k, .surrogate l :: rest =>
    match CodePoint.ofPair? k l with
    | some q => q :: rest
    | none => p :: s
  | _, _ => p :: s

end Text

end DeskCalc
