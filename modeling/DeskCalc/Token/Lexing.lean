import DeskCalc.Decimal.Reading
import DeskCalc.Fault

/-!
# From characters to tokens

`scan` reads the tokens of a text without blanks, one after another; each token is read greedily (`readToken`).
A run of letters is cut into the longest known words, so `epi` is `e` and `pi`; only a function name may contain
digits, so `log10` is a function and `e2` is `e` and `2`.  A function has to be followed by its parenthesis.

`withProducts` then writes out every product that is meant but not written: between a token that ends an operand
and one that begins an operand.
-/

namespace DeskCalc

/-- What stands for the previous answer: nothing, a number, or a text that has to be read as a number. -/
inductive PreviousAnswer where
  | absent
  | value (x : Double)
  | text (s : String)
  deriving DecidableEq, Repr

def PreviousAnswer.ofOption : Option Double → PreviousAnswer
  | some x => value x
  | none => absent

/-- The token for the previous answer. -/
def PreviousAnswer.token : PreviousAnswer → Except Fault Token
  | absent => .error .noPreviousAnswer
  | value x => .ok (.previous x)
  | text s =>
    match readDouble s.toList with
    | some x => .ok (.previous x)
    | none => .error (.unreadableAnswer s)

/-- Whether the character belongs to a numeric literal. -/
def isLiteralChar (c : Char) : Bool :=
  isAsciiDigit c || c == '.'

/-- The value of a literal, digits with at most one point among them. -/
def literalValue (literal : List Char) : Double :=
  let whole := literal.takeWhile isAsciiDigit
  let fraction := (literal.dropWhile isAsciiDigit).drop 1
  Double.ofDecimal false (digitsNat (whole ++ fraction)) (-fraction.length)

/-- The token for a run of digits and points. -/
def literalToken (literal : List Char) : Except Fault Token :=
  if 1 < literal.count '.' || literal == ['.'] then .error (.malformedNumber (String.ofList literal))
  else .ok (.number (literalValue literal))

/-- The words that a run of letters may consist of. -/
def knownWords : List (List Char × Token) :=
  (Function.all.map fun f => (f.name.toList, Token.function f)) ++
    (Constant.all.map fun c => (c.name.toList, Token.ofConstant c))

/-- The longer one of two known words. -/
def longerWord (best : Option (List Char × Token)) (word : List Char × Token) : Option (List Char × Token) :=
  match best with
  | some b => if b.1.length < word.1.length then some word else some b
  | none => some word

/-- The longest known word at the beginning of `letters`. -/
def longestWord? (letters : List Char) : Option (List Char × Token) :=
  (knownWords.filter fun w => w.1.isPrefixOf letters).foldl longerWord none

/-- A token with the text after it; a function needs a parenthesis there. -/
def followedBy (t : Token) (rest : List Char) : Except Fault (Token × List Char) :=
  match t with
  | .function f => if rest.head? = some '(' then .ok (t, rest) else .error (.bareFunction f)
  | _ => .ok (t, rest)

/-- The first word of a text that begins with the letter `c`. -/
def readWord (c : Char) (cs : List Char) : Except Fault (Token × List Char) :=
  let letters := c :: cs.takeWhile Char.isAlpha
  let afterLetters := cs.dropWhile Char.isAlpha
  let digits := afterLetters.takeWhile isAsciiDigit
  let numbered := if digits.isEmpty then none else Function.ofName? (String.ofList (letters ++ digits))
  match numbered with
  | some f => followedBy (.function f) (afterLetters.dropWhile isAsciiDigit)
  | none =>
    match longestWord? letters with
    | some (word, t) => followedBy t (cs.drop (word.length - 1))
    | none => .error (.unknownName (String.ofList letters))

/-- The first token of the text `c :: cs`, and the text after it. -/
def readToken (previous : PreviousAnswer) (c : Char) (cs : List Char) : Except Fault (Token × List Char) :=
  if isLiteralChar c then
    (literalToken (c :: cs.takeWhile isLiteralChar)).map fun t => (t, cs.dropWhile isLiteralChar)
  else if c.isAlpha then readWord c cs
  else if c = 'π' then .ok (.ofConstant .pi, cs)
  else if c = '√' then followedBy (.function .sqrt) cs
  else if c = '_' then previous.token.map fun t => (t, cs)
  else if c = '(' then .ok (.opening, cs)
  else if c = ')' then .ok (.closing, cs)
  else if c = ',' then .ok (.comma, cs)
  else if c = '*' ∧ cs.head? = some '*' then .ok (.operator .power, cs.tail)
  else
    match Operator.ofSymbol? c with
    | some op => .ok (.operator op, cs)
    | none => .error (.unexpectedCharacter c)

private theorem length_dropWhile_le {α : Type} (p : α → Bool) (l : List α) :
    (l.dropWhile p).length ≤ l.length := by
  induction l with
  | nil => exact Nat.le_refl _
  | cons a l ih =>
    rw [List.dropWhile_cons]
    split
    · exact Nat.le_succ_of_le ih
    · exact Nat.le_refl _

theorem snd_of_followedBy {t : Token} {rest : List Char} {r : Token × List Char}
    (h : followedBy t rest = .ok r) : r.2 = rest := by
  unfold followedBy at h
  split at h
  · split at h
    · cases h
      rfl
    · cases h
  · cases h
    rfl

private theorem snd_of_map {x : Except Fault Token} {rest : List Char} {r : Token × List Char}
    (h : (x.map fun t => (t, rest)) = .ok r) : r.2 = rest := by
  cases x with
  | error e => cases h
  | ok t =>
    cases h
    rfl

theorem length_of_readToken {previous : PreviousAnswer} {c : Char} {cs : List Char} {r : Token × List Char}
    (h : readToken previous c cs = .ok r) : r.2.length ≤ cs.length := by
  unfold readToken at h
  split at h
  · rw [snd_of_map h]
    exact length_dropWhile_le _ _
  split at h
  · unfold readWord at h
    simp only at h
    split at h
    · rw [snd_of_followedBy h]
      exact Nat.le_trans (length_dropWhile_le _ _) (length_dropWhile_le _ _)
    · split at h
      · rw [snd_of_followedBy h, List.length_drop]
        exact Nat.sub_le _ _
      · cases h
  split at h
  · cases h
    exact Nat.le_refl _
  split at h
  · exact Nat.le_of_eq (congrArg List.length (snd_of_followedBy h))
  split at h
  · exact Nat.le_of_eq (congrArg List.length (snd_of_map h))
  split at h
  · cases h
    exact Nat.le_refl _
  split at h
  · cases h
    exact Nat.le_refl _
  split at h
  · cases h
    exact Nat.le_refl _
  split at h
  · cases h
    rw [List.length_tail]
    exact Nat.sub_le _ _
  split at h
  · cases h
    exact Nat.le_refl _
  · cases h

/-- The tokens that are written in a text without blanks. -/
def scan (previous : PreviousAnswer) (cs : List Char) : Except Fault (List Token) :=
  match cs with
  | [] => .ok []
  | c :: rest =>
    match _h : readToken previous c rest with
    | .error fault => .error fault
    | .ok (t, after) => (scan previous after).map (t :: ·)
termination_by cs.length
decreasing_by
  have := length_of_readToken _h
  simp only [List.length_cons] at this ⊢
  omega

/-- The tokens with every implicit product written out. -/
def withProducts : List Token → List Token
  | t :: u :: rest =>
    if t.endsOperand && u.beginsOperand then t :: .operator .multiply :: withProducts (u :: rest)
    else t :: withProducts (u :: rest)
  | ts => ts

/-- The tokens of a text without blanks. -/
def lex (previous : PreviousAnswer) (cs : List Char) : Except Fault (List Token) :=
  (scan previous cs).map withProducts

end DeskCalc
