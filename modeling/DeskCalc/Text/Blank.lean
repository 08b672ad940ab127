/-!
# White space

The blanks of Unicode: the characters that separate words.  `isBlank` contains the blanks of ASCII; in addition it
knows the information separators, the next-line character and the space separators beyond ASCII.  Around a number
the information separators are no blanks (`isNumberBlank`).
-/

namespace DeskCalc

/-- The blank characters as ranges of code points. -/
def blankRanges : List (Nat × Nat) :=
  [(0x09, 0x0D), (0x1C, 0x20), (0x85, 0x85), (0xA0, 0xA0), (0x1680, 0x1680), (0x2000, 0x200A), (0x2028, 0x2029),
    (0x202F, 0x202F), (0x205F, 0x205F), (0x3000, 0x3000)]

def isBlank (c : Char) : Bool :=
  blankRanges.any fun r => r.1 ≤ c.toNat && c.toNat ≤ r.2

/-- The blanks that may stand around a number. -/
def isNumberBlank (c : Char) : Bool :=
  isBlank c && !(0x1C ≤ c.toNat && c.toNat ≤ 0x1F)

/-- The text without its blanks. -/
def removeBlanks (s : List Char) : List Char :=
  s.filter fun c => !isBlank c

/-- The text without the characters of a class at both ends. -/
def stripBy (p : Char → Bool) (s : List Char) : List Char :=
  ((s.dropWhile p).reverse.dropWhile p).reverse

/-- The text without blanks at both ends. -/
def strip (s : List Char) : List Char :=
  stripBy isBlank s

theorem removeBlanks_append (s t : List Char) : removeBlanks (s ++ t) = removeBlanks s ++ removeBlanks t := by
  simp [removeBlanks]

end DeskCalc
