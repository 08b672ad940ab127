import DeskCalc.Json.Reading
import DeskCalc.Json.Writing
import DeskCalc.Proofs.DecimalText
import DeskCalc.Text.Utf8

/-!
# JSON objects are read back

An object is read as it was written, if its keys are distinct and consist of plain characters, and if its members are
short: on or off, or numbers with no more digits than are read (`Json.read_write`).  Keys and words are read as they
stand, and a numeral ends where a comma or a new line follows.  The text is ASCII, so its octets are read back too
(`Json.decode_encode_write`).
-/

namespace DeskCalc

/-! ### Octets -/

/-- A text of ASCII characters. -/
def IsAscii (s : List Char) : Prop :=
  ∀ c ∈ s, c.toNat < 0x80

instance (s : List Char) : Decidable (IsAscii s) :=
  List.decidableBAll _ s

theorem IsAscii.append {s t : List Char} (hs : IsAscii s) (ht : IsAscii t) : IsAscii (s ++ t) :=
  fun c hc => (List.mem_append.1 hc).elim (hs c) (ht c)

/-- ASCII characters are octets of their own. -/
theorem Utf8.decode_encode {s : List Char} (ascii : IsAscii s) : decode (encode s) = .ok s := by
  suffices h : ∀ position, decodeFrom position (encode s) = .ok s from h 0
  induction s with
  | nil =>
    intro position
    rw [encode, List.flatMap_nil, decodeFrom]
  | cons c s ih =>
    intro position
    have hc := ascii c List.mem_cons_self
    have hencode : encode (c :: s) = UInt8.ofNat c.toNat :: encode s := by
      have hone : String.utf8EncodeChar c = [UInt8.ofNat c.toNat] := by
        have hle : c.val.toNat ≤ 0x7F := Nat.le_of_lt_succ hc
        simp only [String.utf8EncodeChar]
        rw [if_pos hle]
        rfl
      rw [encode, List.flatMap_cons, hone]
      rfl
    have hnat : (UInt8.ofNat c.toNat).toNat = c.toNat := by
      rw [UInt8.toNat_ofNat']
      omega
    rw [hencode, decodeFrom, hnat, if_pos hc, ih fun d hd => ascii d (List.mem_cons_of_mem c hd), Char.ofNat_toNat]
    rfl

/-! ### Digits -/

/-- The number has no more digits than are read and shown. -/
def FewDigits (n : Nat) : Prop :=
  n < 10 ^ maxDigits

theorem lt_pow_of_le {n m k : Nat} (h : n < 10 ^ m) (hle : m ≤ k) : n < 10 ^ k :=
  Nat.lt_of_lt_of_le h (Nat.pow_le_pow_right (by decide) hle)

/-- A numeral of at most so many digits denotes a number below that power of ten. -/
theorem digitsNat_lt {ds : List Char} {most : Nat} (hds : ∀ c ∈ ds, isAsciiDigit c = true)
    (hlength : ds.length ≤ most) : digitsNat ds < 10 ^ most := by
  suffices h : digitsNat ds < 10 ^ ds.length from lt_pow_of_le h hlength
  clear hlength
  induction ds using List.reverseRecOn with
  | nil => decide
  | append_singleton ds d ih =>
    have hlt := ih fun c hc => hds c (List.mem_append_left _ hc)
    have hd : asciiDigitVal d ≤ 9 := by
      have h := hds d (List.mem_append_right _ (List.mem_singleton_self d))
      simp only [isAsciiDigit, Bool.and_eq_true, decide_eq_true_eq] at h
      have hle : d.toNat ≤ 57 := h.2
      show d.toNat - 48 ≤ 9
      omega
    have hone : digitsNat [d] = asciiDigitVal d := by simp [digitsNat, digitsVal]
    rw [digitsNat_append, hone, List.length_append, List.length_singleton, Nat.pow_one, Nat.pow_succ]
    omega

theorem length_numeral_le_iff {n : Nat} : (numeral 10 n).length ≤ maxDigits ↔ FewDigits n := by
  constructor
  · intro h
    have hlt := digitsNat_lt (fun c hc => isAsciiDigit_of_mem_numeral hc) h
    rwa [digitsNat_numeral] at hlt
  · intro h
    rw [numeral, List.length_map]
    exact length_digits_le (by decide) (by decide) h

namespace Json

/-! ### Strings -/

/-- A character that stands for itself in a string. -/
def IsPlain (c : Char) : Prop :=
  0x20 ≤ c.toNat ∧ c.toNat ≤ 0x7E ∧ c ≠ '"' ∧ c ≠ '\\'

instance (c : Char) : Decidable (IsPlain c) :=
  inferInstanceAs (Decidable (_ ∧ _))

private theorem writeString_plain {s : List Char} (plain : ∀ c ∈ s, IsPlain c) : writeString s = '"' :: s ++ ['"'] := by
  have hchar : ∀ c ∈ s, writeCodePoint (.char c) = [c] := by
    intro c hc
    obtain ⟨hge, hle, hquote, hbackslash⟩ := plain c hc
    have hne : ∀ d : Char, d.toNat < 0x20 → c ≠ d := by
      rintro d hd rfl
      omega
    rw [writeCodePoint, writeChar, if_neg hquote, if_neg hbackslash, if_neg (hne _ (by decide)),
      if_neg (hne _ (by decide)), if_neg (hne _ (by decide)), if_neg (hne _ (by decide)), if_neg (hne _ (by decide)),
      if_pos ⟨hge, hle⟩]
  have hflat : (Text.ofChars s).flatMap writeCodePoint = s := by
    clear plain
    rw [Text.ofChars, List.flatMap_map]
    induction s with
    | nil => rfl
    | cons c s ih =>
      rw [List.flatMap_cons, hchar c List.mem_cons_self, ih fun d hd => hchar d (List.mem_cons_of_mem c hd)]
      rfl
  rw [writeString, hflat]

private theorem readText_plain {s : List Char} (plain : ∀ c ∈ s, IsPlain c) (rest : List Char) :
    readText (s ++ '"' :: rest) = .ok (Text.ofChars s, rest) := by
  induction s with
  | nil => rfl
  | cons c s ih =>
    obtain ⟨hge, hle, hquote, hbackslash⟩ := plain c List.mem_cons_self
    have hread := ih fun d hd => plain d (List.mem_cons_of_mem c hd)
    rw [List.cons_append, readText.eq_def]
    split
    · rename_i h
      cases h
    · rename_i h
      cases h
      exact absurd rfl hquote
    · rename_i h
      exact absurd (List.cons.inj h).1 hbackslash
    · rename_i h
      exact absurd (List.cons.inj h).1 hbackslash
    · rename_i h
      cases h
      have hnot : ¬(c.toNat < 0x20 ∨ c = '\\') := by
        rintro (hlt | heq)
        · exact absurd hge (Nat.not_le.2 hlt)
        · exact hbackslash heq
      rw [if_neg hnot, hread]
      rfl

/-! ### Numbers -/

/-- The text goes on with none of the characters that could belong to a numeral. -/
def EndsNumeral (rest : List Char) : Prop :=
  ∀ c, rest.head? = some c → isAsciiDigit c = false ∧ c ≠ '.' ∧ c ≠ 'e' ∧ c ≠ 'E'

private theorem endsNumeral_cons {c : Char} (h : isAsciiDigit c = false ∧ c ≠ '.' ∧ c ≠ 'e' ∧ c ≠ 'E')
    (rest : List Char) : EndsNumeral (c :: rest) := by
  rintro d ⟨⟩
  exact h

private theorem whole_numeral (n : Nat) {rest : List Char} (hrest : EndsNumeral rest) :
    (if (numeral 10 n ++ rest).head? = some '0' then ['0'] else (numeral 10 n ++ rest).takeWhile isAsciiDigit) =
      numeral 10 n := by
  by_cases hn : n = 0
  · subst hn
    have hzero : numeral 10 0 = ['0'] := by decide +kernel
    rw [hzero]
    rfl
  · obtain ⟨d, hd, hpos, hlt⟩ := head?_digits (b := 10) (by decide) hn
    have hhead : (numeral 10 n ++ rest).head? = some (digitChar d) := by
      rw [numeral, List.head?_append, List.head?_map, hd]
      rfl
    -- zero is the only digit that is written `0`, and the numeral does not begin with it
    have hne : digitChar d ≠ '0' := by
      have hall : ∀ d : Fin 10, 0 < d.val → digitChar d ≠ '0' := by decide
      exact hall ⟨d, hlt⟩ hpos
    have htake : rest.takeWhile isAsciiDigit = [] := by
      cases rest with
      | nil => rfl
      | cons c rest => exact List.takeWhile_cons_of_neg (by simp [(hrest c rfl).1])
    rw [if_neg (by simpa [hhead] using hne), List.takeWhile_append_of_pos fun c hc => isAsciiDigit_of_mem_numeral hc,
      htake, List.append_nil]

private theorem readFraction_of_ends {rest : List Char} (hrest : EndsNumeral rest) :
    readFraction rest = ([], rest) := by
  unfold readFraction
  split
  · rename_i rest
    exact absurd rfl (hrest '.' rfl).2.1
  · rfl

private theorem readPower_of_ends {rest : List Char} (hrest : EndsNumeral rest) : readPower rest = (none, rest) := by
  unfold readPower
  split
  · rename_i c rest
    obtain ⟨-, -, hlower, hupper⟩ := hrest c rfl
    rw [if_neg (by simp [hlower, hupper])]
  · rfl

private theorem readNumber_numeral {n : Nat} (hn : FewDigits n) {rest : List Char} (hrest : EndsNumeral rest) :
    readNumber false (numeral 10 n ++ rest) = .ok (integer n, rest) := by
  have hlength := length_numeral_le_iff.2 hn
  have hne : (numeral 10 n).isEmpty = false := by simp [numeral_ne_nil]
  rw [readNumber]
  simp only [whole_numeral n hrest, hne, List.drop_left, readFraction_of_ends hrest, readPower_of_ends hrest,
    Nat.not_lt.2 hlength, digitsNat_numeral]
  rfl

/-- No word begins with a digit. -/
private theorem not_isPrefixOf_of_isAsciiDigit {w : List Char × Json} (hw : w ∈ wordValues) {c : Char} {cs : List Char}
    (hc : isAsciiDigit c = true) : w.1.isPrefixOf (c :: cs) = false := by
  have hall : wordValues.all (fun w => w.1.head?.any fun d => !isAsciiDigit d) = true := by decide
  have hhead := List.all_eq_true.1 hall w hw
  cases hword : w.1 with
  | nil =>
    rw [hword] at hhead
    cases hhead
  | cons d ds =>
    have hd : isAsciiDigit d = false := by simpa [hword] using hhead
    have hne : (d == c) = false := by
      rw [beq_eq_false_iff_ne]
      rintro rfl
      rw [hc] at hd
      cases hd
    rw [List.isPrefixOf_cons_cons, hne, Bool.false_and]

private theorem readScalar_numeral {n : Nat} (hn : FewDigits n) {rest : List Char} (hrest : EndsNumeral rest) :
    readScalar (numeral 10 n ++ rest) = .ok (integer n, rest) := by
  obtain ⟨c, cs, hcs⟩ := List.exists_cons_of_ne_nil (numeral_ne_nil 10 n)
  have hdigit : isAsciiDigit c = true := isAsciiDigit_of_mem_numeral (hcs ▸ List.mem_cons_self)
  have hword : wordValues.find? (fun w => w.1.isPrefixOf (numeral 10 n ++ rest)) = none := by
    rw [hcs, List.find?_eq_none]
    intro w hw
    rw [List.cons_append, not_isPrefixOf_of_isAsciiDigit hw hdigit]
    exact Bool.false_ne_true
  have hread := readNumber_numeral hn hrest
  unfold readScalar
  rw [hword]
  rw [hcs] at hread ⊢
  dsimp only
  split
  · rename_i heq
    cases heq
    exact absurd hdigit (by decide)
  · exact hread

/-- A number of at most as many digits as are read, or on and off. -/
inductive IsShort : Json → Prop where
  | bool (b : Bool) : IsShort (bool b)
  | integer (n : Nat) (hn : FewDigits n) : IsShort (integer n)

private theorem writeAt_natural (n level : Nat) : (integer n).writeAt level = numeral 10 n := by
  rw [writeAt, if_neg (by omega)]
  rfl

private theorem readScalar_write {v : Json} (hv : v.IsShort) (level : Nat) {rest : List Char}
    (hrest : EndsNumeral rest) : readScalar (v.writeAt level ++ rest) = .ok (v, rest) := by
  cases hv with
  | bool b => cases b <;> rfl
  | integer n hn =>
    rw [writeAt_natural]
    exact readScalar_numeral hn hrest

/-- A short value begins with the character of a scalar. -/
theorem exists_write_cons {v : Json} (hv : v.IsShort) (level : Nat) :
    ∃ c cs, v.writeAt level = c :: cs ∧ c ≠ '"' ∧ c ≠ '[' ∧ c ≠ '\x7b' ∧ isSpace c = false := by
  cases hv with
  | bool b =>
    cases b
    · exact ⟨'f', ['a', 'l', 's', 'e'], rfl, by decide⟩
    · exact ⟨'t', ['r', 'u', 'e'], rfl, by decide⟩
  | integer n hn =>
    obtain ⟨c, cs, hcs⟩ := List.exists_cons_of_ne_nil (numeral_ne_nil 10 n)
    have hdigit : isAsciiDigit c = true := isAsciiDigit_of_mem_numeral (hcs ▸ List.mem_cons_self)
    have hall : literalChars.all
        (fun c => decide (c ≠ '"' ∧ c ≠ '[' ∧ c ≠ '\x7b' ∧ isSpace c = false)) = true := by
      decide
    refine ⟨c, cs, (writeAt_natural n level).trans hcs, of_decide_eq_true (of_isLiteralChar hall ?_)⟩
    rw [isLiteralChar, hdigit, Bool.true_or]

theorem readValue_write {v : Json} (hv : v.IsShort) (fuel depth level : Nat) {rest : List Char}
    (hrest : EndsNumeral rest) : readValue (fuel + 1) depth (v.writeAt level ++ rest) = .ok (v, rest) := by
  obtain ⟨c, cs, hcs, hquote, hbracket, hbrace, -⟩ := exists_write_cons hv level
  have hread := readScalar_write hv level hrest
  rw [hcs] at hread ⊢
  unfold readValue
  dsimp only [List.cons_append]
  split
  · rename_i h
    exact absurd (List.cons.inj h).1 hquote
  · rename_i h
    exact absurd (List.cons.inj h).1 hbracket
  · rename_i h
    exact absurd (List.cons.inj h).1 hbrace
  · exact hread

/-! ### Members -/

private theorem setMember_of_not_mem {key : Text} (value : Json) {members : List (Text × Json)}
    (h : key ∉ members.map Prod.fst) : setMember key value members = members ++ [(key, value)] := by
  induction members with
  | nil => rfl
  | cons m members ih =>
    rw [List.map_cons, List.mem_cons, not_or] at h
    rw [setMember, if_neg (Ne.symm h.1), ih h.2]
    rfl

private theorem skipSpace_append {s : List Char} (hs : ∀ c ∈ s, isSpace c = true) (rest : List Char) :
    skipSpace (s ++ rest) = skipSpace rest :=
  List.dropWhile_append_of_pos hs

theorem skipSpace_cons {c : Char} (hc : isSpace c = false) (rest : List Char) : skipSpace (c :: rest) = c :: rest :=
  List.dropWhile_cons_of_neg (by simp [hc])

private theorem isSpace_of_mem_newLine {level : Nat} {c : Char} (hc : c ∈ newLine level) : isSpace c = true := by
  rcases List.mem_cons.1 hc with rfl | hc
  · rfl
  · rw [List.eq_of_mem_replicate hc]
    rfl

/-- A member with a key of plain characters and a short value. -/
structure IsShortMember (m : Text × Json) : Prop where
  exists_key : ∃ s : List Char, m.1 = Text.ofChars s ∧ ∀ c ∈ s, IsPlain c
  value : m.2.IsShort

/-- One member is read, and what follows decides how to go on. -/
private theorem readMembers_member {m : Text × Json} (hm : IsShortMember m) (fuel depth level : Nat)
    (members : List (Text × Json)) (rest : List Char) (hrest : EndsNumeral rest) :
    readMembers (fuel + 2) depth members (writeString m.1 ++ [':', ' '] ++ m.2.writeAt level ++ rest) =
      match skipSpace rest with
      | ',' :: rest => readMembers (fuel + 1) depth (setMember m.1 m.2 members) (skipSpace rest)
      | '\x7d' :: rest => .ok (setMember m.1 m.2 members, rest)
      | _ => .error .malformed := by
  obtain ⟨s, hkey, hplain⟩ := hm.exists_key
  obtain ⟨c, cs, hcs, -, -, -, hc⟩ := exists_write_cons hm.value level
  have htext : writeString m.1 ++ [':', ' '] ++ m.2.writeAt level ++ rest =
      '"' :: (s ++ '"' :: ':' :: ' ' :: (m.2.writeAt level ++ rest)) := by
    rw [hkey, writeString_plain hplain]
    simp
  have hskip : skipSpace (' ' :: (m.2.writeAt level ++ rest)) = m.2.writeAt level ++ rest := by
    rw [hcs]
    exact skipSpace_cons hc _
  have hvalue := readValue_write hm.value fuel depth level hrest
  rw [htext, hkey]
  unfold readMembers
  simp only [readText_plain hplain, bind, Except.bind, skipSpace_cons (c := ':') rfl, hskip, hvalue]
  rfl

private theorem writeMembers_cons_cons (m m' : Text × Json) (ms : List (Text × Json)) (level : Nat) :
    writeMembers level (m :: m' :: ms) =
      writeString m.1 ++ [':', ' '] ++ m.2.writeAt level ++ (',' :: newLine level) ++ writeMembers level (m' :: ms) :=
  rfl

private theorem exists_writeMembers_cons (m : Text × Json) (ms : List (Text × Json)) (level : Nat) :
    ∃ cs, writeMembers level (m :: ms) = '"' :: cs := by
  cases ms <;> exact ⟨_, rfl⟩

/-- Members are read as they are written, up to the closing brace. -/
private theorem readMembers_write {ms : List (Text × Json)} (hms : ∀ m ∈ ms, IsShortMember m) (hne : ms ≠ [])
    {members : List (Text × Json)} (hnodup : ((members ++ ms).map Prod.fst).Nodup) {fuel : Nat}
    (hfuel : ms.length < fuel) (depth level : Nat) (rest : List Char) :
    readMembers fuel depth members (writeMembers level ms ++ '\n' :: '\x7d' :: rest) = .ok (members ++ ms, rest) := by
  induction ms generalizing members fuel with
  | nil => exact absurd rfl hne
  | cons m ms ih =>
    -- one unit of fuel for the member and one for its value
    obtain ⟨fuel, rfl⟩ := Nat.exists_eq_add_of_le' (show 2 ≤ fuel by rw [List.length_cons] at hfuel; omega)
    have hset : setMember m.1 m.2 members = members ++ [m] := by
      refine setMember_of_not_mem m.2 fun hmem => ?_
      rw [List.map_append, List.nodup_append] at hnodup
      exact hnodup.2.2 _ hmem _ List.mem_cons_self rfl
    cases ms with
    | nil =>
      have hread := readMembers_member (hms m List.mem_cons_self) fuel depth level members
        ('\n' :: '\x7d' :: rest) (endsNumeral_cons (by decide) _)
      rw [hset] at hread
      exact hread
    | cons m' ms =>
      -- the comma ends the numeral of this member, and the blanks after it are skipped
      have hwrite : writeMembers level (m :: m' :: ms) ++ '\n' :: '\x7d' :: rest =
          writeString m.1 ++ [':', ' '] ++ m.2.writeAt level ++
            (',' :: (newLine level ++ (writeMembers level (m' :: ms) ++ '\n' :: '\x7d' :: rest))) := by
        rw [writeMembers_cons_cons]
        simp only [List.append_assoc, List.cons_append]
      have hread := readMembers_member (hms m List.mem_cons_self) fuel depth level members
        (',' :: (newLine level ++ (writeMembers level (m' :: ms) ++ '\n' :: '\x7d' :: rest)))
        (endsNumeral_cons (by decide) _)
      obtain ⟨cs, hcs⟩ := exists_writeMembers_cons m' ms level
      have hskip : skipSpace (newLine level ++ (writeMembers level (m' :: ms) ++ '\n' :: '\x7d' :: rest)) =
          writeMembers level (m' :: ms) ++ '\n' :: '\x7d' :: rest := by
        rw [skipSpace_append (fun c hc => isSpace_of_mem_newLine hc), hcs]
        exact skipSpace_cons rfl _
      have hrest : readMembers (fuel + 1) depth (members ++ [m])
          (writeMembers level (m' :: ms) ++ '\n' :: '\x7d' :: rest) = .ok (members ++ [m] ++ m' :: ms, rest) :=
        ih (fun m hm => hms m (List.mem_cons_of_mem _ hm)) (List.cons_ne_nil m' ms) (by simpa using hnodup)
          (by simpa using hfuel)
      rw [hwrite, hread, hset]
      show readMembers (fuel + 1) depth (members ++ [m]) (skipSpace (newLine level ++ _)) = _
      rw [hskip, hrest, List.append_assoc]
      rfl

private theorem length_le_length_writeMembers (ms : List (Text × Json)) (level : Nat) :
    ms.length ≤ (writeMembers level ms).length := by
  induction ms with
  | nil => exact Nat.le_refl 0
  | cons m ms ih =>
    cases ms with
    | nil =>
      simp only [writeMembers, List.length_append, List.length_cons]
      omega
    | cons m' ms =>
      rw [writeMembers_cons_cons]
      simp only [List.length_append, List.length_cons] at ih ⊢
      omega

/-- An object of short members is read as it is written. -/
theorem read_write [Host] {ms : List (Text × Json)} (hms : ∀ m ∈ ms, IsShortMember m) (hne : ms ≠ [])
    (hnodup : (ms.map Prod.fst).Nodup) : read (object ms).write = .ok (object ms) := by
  obtain ⟨m, ms, rfl⟩ := List.exists_cons_of_ne_nil hne
  have htext : (object (m :: ms)).write = '\x7b' :: (newLine 1 ++ (writeMembers 1 (m :: ms) ++ ['\n', '\x7d'])) := by
    show '\x7b' :: newLine 1 ++ writeMembers 1 (m :: ms) ++ newLine 0 ++ ['\x7d'] = _
    simp [newLine]
  obtain ⟨cs, hcs⟩ := exists_writeMembers_cons m ms 1
  have hskip : skipSpace (newLine 1 ++ (writeMembers 1 (m :: ms) ++ ['\n', '\x7d'])) =
      writeMembers 1 (m :: ms) ++ ['\n', '\x7d'] := by
    rw [skipSpace_append (fun c hc => isSpace_of_mem_newLine hc), hcs]
    exact skipSpace_cons rfl _
  have hvalue : ∀ fuel, (m :: ms).length < fuel →
      readValue (fuel + 1) Host.readingDepth (object (m :: ms)).write = .ok (object (m :: ms), []) := by
    intro fuel hfuel
    obtain ⟨depth, hdepth⟩ := Nat.exists_eq_add_of_lt Host.readingDepth_pos
    rw [Nat.zero_add] at hdepth
    have hread : readMembers fuel depth [] (writeMembers 1 (m :: ms) ++ ['\n', '\x7d']) = .ok (m :: ms, []) :=
      readMembers_write hms hne (by simpa using hnodup) hfuel depth 1 []
    rw [htext, hdepth]
    unfold readValue
    simp only [hskip]
    rw [hcs] at hread ⊢
    exact congrArg (Except.map fun r : List (Text × Json) × List Char => (object r.1, r.2)) hread
  have hlength : (m :: ms).length < 2 * (object (m :: ms)).write.length + 1 := by
    have hle := length_le_length_writeMembers (m :: ms) 1
    rw [htext]
    simp only [List.length_cons, List.length_append] at hle ⊢
    omega
  have hspace : skipSpace (object (m :: ms)).write = (object (m :: ms)).write := by
    rw [htext]
    exact skipSpace_cons rfl _
  rw [read, hspace, hvalue _ hlength]
  rfl

/-! ### The text is ASCII -/

theorem IsPlain.lt {c : Char} (h : IsPlain c) : c.toNat < 0x80 :=
  Nat.lt_of_le_of_lt h.2.1 (by decide)

private theorem lt_of_isAsciiDigit {c : Char} (h : isAsciiDigit c = true) : c.toNat < 0x80 := by
  simp only [isAsciiDigit, Bool.and_eq_true, decide_eq_true_eq] at h
  exact Nat.lt_of_le_of_lt (show c.toNat ≤ 57 from h.2) (by decide)

private theorem isAscii_writeAt {v : Json} (hv : v.IsShort) (level : Nat) : IsAscii (v.writeAt level) := by
  cases hv with
  | bool b =>
    intro c hc
    have hall : ∀ b : Bool, (if b then ['t', 'r', 'u', 'e'] else ['f', 'a', 'l', 's', 'e']).all
      (fun c => c.toNat < 0x80) = true := by decide
    exact of_decide_eq_true (List.all_eq_true.1 (hall b) c hc)
  | integer n hn =>
    rw [writeAt_natural]
    exact fun c hc => lt_of_isAsciiDigit (isAsciiDigit_of_mem_numeral hc)

private theorem isAscii_newLine (level : Nat) : IsAscii (newLine level) := by
  intro c hc
  rcases List.mem_cons.1 hc with rfl | hc
  · decide
  · rw [List.eq_of_mem_replicate hc]
    decide

private theorem isAscii_member {m : Text × Json} (hm : IsShortMember m) (level : Nat) :
    IsAscii (writeString m.1 ++ [':', ' '] ++ m.2.writeAt level) := by
  obtain ⟨s, hkey, hplain⟩ := hm.exists_key
  rw [hkey, writeString_plain hplain]
  refine (IsAscii.append ?_ (by decide)).append (isAscii_writeAt hm.value level)
  have hquote : IsAscii ['"'] := by decide
  have hs : IsAscii s := fun c hc => (hplain c hc).lt
  exact (hquote.append hs).append hquote

private theorem isAscii_writeMembers {ms : List (Text × Json)} (hms : ∀ m ∈ ms, IsShortMember m) (level : Nat) :
    IsAscii (writeMembers level ms) := by
  induction ms with
  | nil => exact nofun
  | cons m ms ih =>
    have hmember := isAscii_member (hms m List.mem_cons_self) level
    cases ms with
    | nil => exact hmember
    | cons m' ms =>
      rw [writeMembers_cons_cons]
      have hcomma : IsAscii [','] := by decide
      exact (hmember.append (hcomma.append (isAscii_newLine level))).append
        (ih fun m hm => hms m (List.mem_cons_of_mem _ hm))

/-- The octets of an object of short members are read as its text. -/
theorem decode_encode_write {ms : List (Text × Json)} (hms : ∀ m ∈ ms, IsShortMember m) :
    Utf8.decode (Utf8.encode (object ms).write) = .ok (object ms).write := by
  apply Utf8.decode_encode
  show IsAscii (object ms).write
  cases ms with
  | nil => decide
  | cons m ms =>
    have hopen : IsAscii ['\x7b'] := by decide
    have hclose : IsAscii ['\x7d'] := by decide
    exact (((hopen.append (isAscii_newLine 1)).append (isAscii_writeMembers hms 1)).append (isAscii_newLine 0)).append
      hclose

end Json

end DeskCalc
