import DeskCalc.Proofs.Scanning
import DeskCalc.Proofs.WordTable

/-!
# Lexing by places

The text is read at places, from the first one to the last: a character is an entry of the text that may be missing,
names are looked up in tables, the text of a literal is read as a number, and the product between two operands is
written when the second one is pushed.

A place of the text stands for the rest of the text from there on (`placeOf`).  One round of the loop reads the token
that `readToken` reads (`RawLexing.step_eq`), so the loop neither traps nor goes on without end, and its tokens are
those of the lexer (`RawLexing.tokens_eq`).
-/

namespace DeskCalc

/-! ### Places and rests of a text -/

/-- The place in the text `s` where the rest begins. -/
def placeOf (s rest : List Char) : Nat :=
  s.length - rest.length

/-- The text from one place to another. -/
def slice (s : List Char) (i j : Nat) : List Char :=
  (s.drop i).take (j - i)

/-- The first place from `i` on with a character outside of the class. -/
def skip (p : Char → Bool) (s : List Char) (i : Nat) : Except Halt Nat :=
  if i < s.length then do
    let c ← entry s i
    if p c then skip p s (i + 1) else return i
  else return i
termination_by s.length - i

section Places

variable {s rest : List Char} {c : Char}

private theorem drop_placeOf (h : rest <:+ s) : s.drop (placeOf s rest) = rest :=
  (List.suffix_iff_eq_drop.1 h).symm

private theorem placeOf_lt (h : c :: rest <:+ s) : placeOf s (c :: rest) < s.length := by
  have hle := h.length_le
  simp only [placeOf, List.length_cons] at hle ⊢
  omega

private theorem placeOf_drop (h : rest <:+ s) {n : Nat} (hn : n ≤ rest.length) :
    placeOf s (rest.drop n) = placeOf s rest + n := by
  have hle := h.length_le
  simp only [placeOf, List.length_drop]
  omega

private theorem placeOf_cons (h : c :: rest <:+ s) : placeOf s (c :: rest) + 1 = placeOf s rest :=
  (placeOf_drop h (Nat.le_add_left 1 rest.length)).symm

private theorem entry_placeOf (h : c :: rest <:+ s) : entry s (placeOf s (c :: rest)) = .ok c :=
  entry_of_drop_eq (drop_placeOf h)

private theorem suffix_of_cons_suffix (h : c :: rest <:+ s) : rest <:+ s :=
  (List.suffix_cons c rest).trans h

private theorem slice_placeOf {u v : List Char} (h : rest <:+ s) (hsplit : u ++ v = rest) :
    slice s (placeOf s rest) (placeOf s v) = u := by
  subst hsplit
  have hlength : placeOf s v - placeOf s (u ++ v) = u.length := by
    have hle := h.length_le
    simp only [placeOf, List.length_append] at hle ⊢
    omega
  rw [slice, drop_placeOf h, hlength, List.take_left]

private theorem slice_next (h : c :: rest <:+ s) :
    slice s (placeOf s (c :: rest) + 1) (placeOf s (c :: rest) + 2) = rest.take 1 := by
  have hplace : placeOf s (c :: rest) + 2 = placeOf s rest + 1 := congrArg (· + 1) (placeOf_cons h)
  rw [slice, hplace, placeOf_cons h, drop_placeOf (suffix_of_cons_suffix h), Nat.add_sub_cancel_left]

/-- Skipping a class of characters is dropping them from the rest. -/
private theorem skip_placeOf (p : Char → Bool) (h : rest <:+ s) :
    skip p s (placeOf s rest) = .ok (placeOf s (rest.dropWhile p)) := by
  induction rest with
  | nil =>
    rw [skip, if_neg (by simp [placeOf])]
    rfl
  | cons c rest ih =>
    rw [skip, if_pos (placeOf_lt h), entry_placeOf h, ok_bind, List.dropWhile_cons]
    split
    · rw [placeOf_cons h, ih (suffix_of_cons_suffix h)]
    · rfl

end Places

namespace RawLexing

/-! ### The loop -/

/-- The number at a place, and the place after it. -/
def readNumber (s : List Char) (i : Nat) : Except Halt (Token × Nat) := do
  let j ← skip isLiteralChar s i
  let literal := slice s i j
  if 1 < literal.count '.' || literal == ['.'] then
    .error (.fault (.malformedNumber (String.ofList literal)))
  else
    let x ← numberOf literal
    return (.number x, j)

/-- The longest known word at a place with the given letters, and the place after the word. -/
def readLongest (letters : List Char) (i : Nat) : Except Halt (Token × Nat) := do
  match ← longestKnown letters letters.length with
  | some (t, n) => return (t, i + n)
  | none => .error (.fault (.unknownName (String.ofList letters)))

/-- The function or constant at a place, and the place after it. -/
def readName (s : List Char) (i : Nat) : Except Halt (Token × Nat) := do
  let j ← skip Char.isAlpha s i
  let letters := slice s i j
  let k ← skip isAsciiDigit s j
  let name := String.ofList (slice s i k)
  if j < k ∧ (functionTable.lookup name).isSome = true then
    let t ← functionNamed name
    return (t, k)
  else readLongest letters i

/-- The function or constant that is written with one sign. -/
def readSign (c : Char) (i : Nat) : Except Halt (Token × Nat) := do
  let name := String.singleton c
  let t ← if (functionTable.lookup name).isSome || (Function.aliases.lookup name).isSome then functionNamed name
    else constantNamed Constant.pi.name name
  return (t, i + 1)

/-- A token and the place after it; a function has to be followed by its parenthesis. -/
def called (s : List Char) (r : Token × Nat) : Except Halt (Token × Nat) :=
  match r.1 with
  | .function f =>
    if r.2 < s.length then do
      let c ← entry s r.2
      if c = '(' then return r else .error (.fault (.bareFunction f))
    else .error (.fault (.bareFunction f))
  | _ => return r

/-- The tokens, latest first, with one more that begins an operand. -/
def pushOperand (tokens : List Token) (t : Token) : Except Halt (List Token) :=
  if tokens.isEmpty then return t :: tokens
  else do
    let u ← top tokens
    if u.endsOperand then
      let op ← entryOf operatorTable '*'
      return t :: .operator op :: tokens
    else return t :: tokens

/-- The tokens with an open parenthesis; that of a call follows its function directly. -/
def pushOpening (tokens : List Token) : Except Halt (List Token) :=
  if tokens.isEmpty then pushOperand tokens .opening
  else do
    match ← top tokens with
    | .function _ => return .opening :: tokens
    | _ => pushOperand tokens .opening

/-- The place after an operand, and the tokens with the operand. -/
def pushRead (tokens : List Token) (r : Token × Nat) : Except Halt (Nat × List Token) := do
  let tokens ← pushOperand tokens r.1
  return (r.2, tokens)

/-- One round: the place after the token at the place `i`, and the tokens. -/
def step (answer : Option Double) (s : List Char) (i : Nat) (tokens : List Token) :
    Except Halt (Nat × List Token) := do
  let c ← entry s i
  if isLiteralChar c then
    let r ← readNumber s i
    pushRead tokens r
  else if c.isAlpha ∨ c = 'π' ∨ c = '√' then
    let r ← if c = 'π' ∨ c = '√' then readSign c i else readName s i
    let r ← called s r
    pushRead tokens r
  else if c = '_' then
    match answer with
    | some x => pushRead tokens (.previous x, i + 1)
    | none => .error (.fault .noPreviousAnswer)
  else if c = '*' ∧ slice s (i + 1) (i + 2) = ['*'] then
    let op ← entryOf operatorTable '^'
    return (i + 2, .operator op :: tokens)
  else if (operatorTable.lookup c).isSome then
    let op ← entryOf operatorTable c
    return (i + 1, .operator op :: tokens)
  else if c = '(' then
    let tokens ← pushOpening tokens
    return (i + 1, tokens)
  else if c = ')' then return (i + 1, .closing :: tokens)
  else if c = ',' then return (i + 1, .comma :: tokens)
  else .error (.fault (.unexpectedCharacter c))

/-- The tokens from the place `i` on, with at most `n` rounds. -/
def loop (answer : Option Double) (s : List Char) : Nat → Nat → List Token → Except Halt (List Token)
  | 0, i, tokens => if i < s.length then .error (.trap .endless) else return tokens.reverse
  | n + 1, i, tokens =>
    if i < s.length then do
      let (next, tokens) ← step answer s i tokens
      loop answer s n next tokens
    else return tokens.reverse

/-- The tokens of a text without blanks. -/
def tokens (answer : Option Double) (s : List Char) : Except Halt (List Token) :=
  loop answer s s.length 0 []

/-! ### Pushing tokens -/

/-- The tokens with one more, after the product that is meant before it. -/
def pushed (tokens : List Token) (t : Token) : List Token :=
  if (tokens.head?.any Token.endsOperand && t.beginsOperand) then t :: .operator .multiply :: tokens else t :: tokens

private theorem pushed_of_not_begins (tokens : List Token) {t : Token} (h : t.beginsOperand = false) :
    pushed tokens t = t :: tokens := by
  rw [pushed, h, Bool.and_false]
  rfl

private theorem pushOperand_eq (tokens : List Token) {t : Token} (h : t.beginsOperand = true) :
    pushOperand tokens t = .ok (pushed tokens t) := by
  cases tokens with
  | nil => rfl
  | cons u tokens =>
    have hproduct : entryOf operatorTable '*' = .ok .multiply := entryOf_of_lookup (lookup_operatorTable '*')
    rw [pushOperand, if_neg (by simp), top, ok_bind, hproduct, pushed, h, Bool.and_true]
    change (if _ then _ else _) = Except.ok (if u.endsOperand then _ else _)
    split <;> rfl

private theorem pushOpening_eq (tokens : List Token) : pushOpening tokens = .ok (pushed tokens .opening) := by
  cases tokens with
  | nil => rfl
  | cons u tokens =>
    rw [pushOpening, if_neg (by simp), top, ok_bind]
    cases u with
    | function f => rfl
    | _ => exact pushOperand_eq (_ :: tokens) (rfl : Token.opening.beginsOperand = true)

/-- Pushing tokens one by one writes out the products between them. -/
private theorem reverse_foldl_pushed (t : Token) (tokens ts : List Token) :
    (ts.foldl pushed (t :: tokens)).reverse = tokens.reverse ++ withProducts (t :: ts) := by
  induction ts generalizing t tokens with
  | nil => exact List.reverse_cons
  | cons u ts ih =>
    rw [List.foldl_cons, pushed, withProducts, List.head?_cons, Option.any_some]
    split
    · rw [ih, List.reverse_cons, List.reverse_cons, List.append_assoc, List.append_assoc]
      rfl
    · rw [ih, List.reverse_cons, List.append_assoc]
      rfl

private theorem reverse_pushed (ts : List Token) : (ts.foldl pushed []).reverse = withProducts ts := by
  cases ts with
  | nil => rfl
  | cons t ts => exact reverse_foldl_pushed t [] ts

/-! ### One round -/

section Step

variable {s cs : List Char} {c : Char}

/-- What is read at a place of a rest of the text, in terms of the rest. -/
def atPlace (s : List Char) (x : Except Fault (Token × List Char)) : Except Halt (Token × Nat) :=
  untrapped (x.map fun r => (r.1, placeOf s r.2))

private theorem called_eq {rest : List Char} (h : rest <:+ s) (t : Token) :
    called s (t, placeOf s rest) = atPlace s (followedBy t rest) := by
  cases t with
  | function f =>
    cases rest with
    | nil => exact if_neg (by simp [placeOf])
    | cons c rest =>
      simp only [called, followedBy, if_pos (placeOf_lt h), entry_placeOf h, ok_bind, List.head?_cons, Option.some.injEq]
      split <;> rfl
  | _ => rfl

private theorem readNumber_eq (h : c :: cs <:+ s) (hc : isLiteralChar c = true) :
    readNumber s (placeOf s (c :: cs)) =
      atPlace s ((literalToken (c :: cs.takeWhile isLiteralChar)).map fun t => (t, cs.dropWhile isLiteralChar)) := by
  have hskip := skip_placeOf isLiteralChar h
  rw [List.dropWhile_cons_of_pos hc] at hskip
  have hslice : slice s (placeOf s (c :: cs)) (placeOf s (cs.dropWhile isLiteralChar)) =
      c :: cs.takeWhile isLiteralChar :=
    slice_placeOf h (by rw [List.cons_append, List.takeWhile_append_dropWhile])
  simp only [readNumber, hskip, ok_bind, hslice]
  cases hliteral : literalToken (c :: cs.takeWhile isLiteralChar) with
  | error e =>
    rw [literalToken] at hliteral
    split at hliteral
    · rename_i hbad
      cases hliteral
      rw [if_pos hbad]
      rfl
    · cases hliteral
  | ok t =>
    obtain ⟨l, hl, ht⟩ := exists_literal_of_literalToken hc hliteral
    rw [literalToken] at hliteral
    split at hliteral
    · cases hliteral
    · rename_i hgood
      rw [if_neg hgood, ← hl, numberOf, l.readDouble_text, ht, l.readDouble_text]
      rfl

private theorem readSign_pi (i : Nat) : readSign 'π' i = .ok (.ofConstant .pi, i + 1) :=
  rfl

private theorem readSign_root (i : Nat) : readSign '√' i = .ok (.function .sqrt, i + 1) :=
  rfl

/-- The token of the longest word, and what follows the word. -/
private theorem readLongest_eq (h : c :: cs <:+ s) (hc : c.isAlpha = true) :
    readLongest (c :: cs.takeWhile Char.isAlpha) (placeOf s (c :: cs)) >>= called s =
      atPlace s (match longestWord? (c :: cs.takeWhile Char.isAlpha) with
        | some (word, t) => followedBy t (cs.drop (word.length - 1))
        | none => .error (.unknownName (String.ofList (c :: cs.takeWhile Char.isAlpha)))) := by
  have halpha : ∀ d ∈ c :: cs.takeWhile Char.isAlpha, d.isAlpha = true := by
    intro d hd
    rcases List.mem_cons.1 hd with rfl | hd
    · exact hc
    · exact List.mem_takeWhile_imp hd
  rw [readLongest, longestKnown_eq halpha (Nat.le_refl _) fun v _ hpre => hpre.length_le, ok_bind]
  cases hlong : longestWord? (c :: cs.takeWhile Char.isAlpha) with
  | none => rfl
  | some w =>
    obtain ⟨word, t⟩ := w
    obtain ⟨hmem, hpre⟩ := longestWord?_eq_some hlong
    have hle : word.length ≤ (c :: cs).length := by
      refine (hpre.trans ?_).length_le
      exact (List.prefix_cons_inj c).2 (List.takeWhile_prefix _)
    obtain ⟨d, ds, rfl⟩ : ∃ d ds, word = d :: ds := by
      rcases mem_knownWords hmem with ⟨f, hf⟩ | ⟨k, hk⟩
      · obtain ⟨d, ds, hname, -⟩ := f.exists_name
        exact ⟨d, ds, (Prod.mk.inj hf).1.trans hname⟩
      · obtain ⟨d, ds, hname, -⟩ := k.exists_name
        exact ⟨d, ds, (Prod.mk.inj hk).1.trans hname⟩
    have hplace : placeOf s (c :: cs) + (d :: ds).length = placeOf s (cs.drop ((d :: ds).length - 1)) :=
      (placeOf_drop h hle).symm
    have hrest : cs.drop ((d :: ds).length - 1) <:+ s := (List.drop_suffix _ _).trans (suffix_of_cons_suffix h)
    rw [← called_eq hrest, ← hplace]
    rfl

private theorem readName_eq (h : c :: cs <:+ s) (hc : c.isAlpha = true) :
    readName s (placeOf s (c :: cs)) >>= called s = atPlace s (readWord c cs) := by
  have hcs := suffix_of_cons_suffix h
  have hafter : cs.dropWhile Char.isAlpha <:+ s := (List.dropWhile_suffix Char.isAlpha).trans hcs
  have hletters : c :: cs.takeWhile Char.isAlpha ++ cs.dropWhile Char.isAlpha = c :: cs := by
    rw [List.cons_append, List.takeWhile_append_dropWhile]
  have hskip := skip_placeOf Char.isAlpha h
  rw [List.dropWhile_cons_of_pos hc] at hskip
  rw [readName, readWord, hskip, ok_bind, slice_placeOf h hletters, skip_placeOf isAsciiDigit hafter, ok_bind]
  generalize cs.dropWhile Char.isAlpha = after at *
  have hdigits : c :: cs.takeWhile Char.isAlpha ++ after.takeWhile isAsciiDigit ++ after.dropWhile isAsciiDigit =
      c :: cs := by
    rw [List.append_assoc, List.takeWhile_append_dropWhile, hletters]
  simp only [slice_placeOf h hdigits, lookup_functionTable]
  have hrun : after.takeWhile isAsciiDigit ++ after.dropWhile isAsciiDigit = after := List.takeWhile_append_dropWhile
  cases hdigit : after.takeWhile isAsciiDigit with
  | nil =>
    rw [hdigit, List.nil_append] at hrun
    rw [hrun, if_neg fun hlt => absurd hlt.1 (Nat.lt_irrefl _)]
    exact readLongest_eq h hc
  | cons d ds =>
    have hlt : placeOf s after < placeOf s (after.dropWhile isAsciiDigit) := by
      have hle := hafter.length_le
      have hlength := congrArg List.length hrun
      rw [hdigit, List.length_append, List.length_cons] at hlength
      simp only [placeOf]
      omega
    have hrest : after.dropWhile isAsciiDigit <:+ s := (List.dropWhile_suffix isAsciiDigit).trans hafter
    cases hname : Function.ofName? (String.ofList (c :: cs.takeWhile Char.isAlpha ++ d :: ds)) with
    | none =>
      rw [if_neg fun hfound => absurd hfound.2 (by simp)]
      exact readLongest_eq h hc
    | some f =>
      rw [if_pos ⟨hlt, rfl⟩, functionNamed_eq hname, ok_bind]
      exact called_eq hrest (.function f)

/-- An operand that is read is pushed. -/
private theorem atPlace_bind_pushRead {x : Except Fault (Token × List Char)} (tokens : List Token)
    (hbegins : ∀ r, x = .ok r → r.1.beginsOperand = true) :
    atPlace s x >>= pushRead tokens = untrapped (x.map fun r => (placeOf s r.2, pushed tokens r.1)) := by
  cases x with
  | error e => rfl
  | ok r =>
    change pushRead tokens (r.1, placeOf s r.2) = _
    rw [pushRead, pushOperand_eq tokens (hbegins r rfl)]
    rfl

private theorem beginsOperand_of_followedBy {t : Token} {rest : List Char} {r : Token × List Char}
    (ht : t.beginsOperand = true) (h : followedBy t rest = .ok r) : r.1.beginsOperand = true := by
  rw [(followedBy_eq_ok h).1]
  exact ht

private theorem beginsOperand_of_readWord {r : Token × List Char} (h : readWord c cs = .ok r) :
    r.1.beginsOperand = true := by
  simp only [readWord] at h
  split at h
  · exact beginsOperand_of_followedBy rfl h
  · split at h
    · rename_i hlong
      rcases mem_knownWords (longestWord?_eq_some hlong).1 with ⟨f, hf⟩ | ⟨k, hk⟩
      · cases hf
        exact beginsOperand_of_followedBy rfl h
      · cases hk
        exact beginsOperand_of_followedBy rfl h
    · cases h

/-- One round reads the token that the lexer reads, and pushes it. -/
theorem step_eq (answer : Option Double) (h : c :: cs <:+ s) (tokens : List Token) :
    step answer s (placeOf s (c :: cs)) tokens =
      untrapped ((readToken (.ofOption answer) c cs).map fun r => (placeOf s r.2, pushed tokens r.1)) := by
  have hcs := suffix_of_cons_suffix h
  rw [step.eq_def, entry_placeOf h, ok_bind, readToken]
  by_cases hliteral : isLiteralChar c = true
  · rw [if_pos hliteral, if_pos hliteral, readNumber_eq h hliteral]
    refine atPlace_bind_pushRead tokens fun r hr => ?_
    cases ht : literalToken (c :: cs.takeWhile isLiteralChar) with
    | error e =>
      rw [ht] at hr
      cases hr
    | ok t =>
      obtain ⟨l, -, rfl⟩ := exists_literal_of_literalToken hliteral ht
      rw [ht] at hr
      cases hr
      rfl
  rw [if_neg hliteral, if_neg hliteral]
  by_cases halpha : c.isAlpha = true
  · have hsign : ¬(c = 'π' ∨ c = '√') := by rintro (rfl | rfl) <;> exact absurd halpha (by decide)
    rw [if_pos (.inl halpha), if_pos halpha, if_neg hsign, ← bind_assoc, readName_eq h halpha]
    exact atPlace_bind_pushRead tokens fun r hr => beginsOperand_of_readWord hr
  rw [if_neg halpha]
  by_cases hpi : c = 'π'
  · subst hpi
    rw [if_pos (.inr (.inl rfl)), if_pos rfl, if_pos (.inl rfl), readSign_pi, ok_bind, placeOf_cons h]
    change called s (_, placeOf s cs) >>= pushRead tokens = _
    rw [called_eq hcs]
    exact atPlace_bind_pushRead tokens fun r hr => beginsOperand_of_followedBy rfl hr
  by_cases hroot : c = '√'
  · subst hroot
    rw [if_pos (.inr (.inr rfl)), if_neg hpi, if_pos rfl, if_pos (.inr rfl), readSign_root, ok_bind, placeOf_cons h]
    change called s (_, placeOf s cs) >>= pushRead tokens = _
    rw [called_eq hcs]
    exact atPlace_bind_pushRead tokens fun r hr => beginsOperand_of_followedBy rfl hr
  rw [if_neg hpi, if_neg hroot, if_neg fun hword => (hword.resolve_left halpha).elim hpi hroot]
  by_cases hprevious : c = '_'
  · subst hprevious
    rw [if_pos rfl, if_pos rfl, placeOf_cons h]
    cases answer with
    | none => rfl
    | some x =>
      exact atPlace_bind_pushRead (x := .ok (.previous x, cs)) tokens fun r hr => by
        cases hr
        rfl
  rw [if_neg hprevious, if_neg hprevious]
  have hsimple : ∀ {t : Token}, t.beginsOperand = false →
      (Except.ok (placeOf s (c :: cs) + 1, t :: tokens) : Except Halt (Nat × List Token)) =
        untrapped ((Except.ok (t, cs)).map fun r => (placeOf s r.2, pushed tokens r.1)) := by
    intro t ht
    rw [placeOf_cons h, ← pushed_of_not_begins tokens ht]
    rfl
  by_cases hopening : c = '('
  · subst hopening
    rw [if_pos rfl, if_neg fun hstar => absurd hstar.1 (by decide), if_neg (by decide), if_pos rfl, pushOpening_eq, ok_bind, placeOf_cons h]
    rfl
  by_cases hclosing : c = ')'
  · subst hclosing
    rw [if_neg hopening, if_pos rfl, if_neg fun hstar => absurd hstar.1 (by decide), if_neg (by decide),
      if_neg hopening, if_pos rfl]
    exact hsimple rfl
  by_cases hcomma : c = ','
  · subst hcomma
    rw [if_neg hopening, if_neg hclosing, if_pos rfl, if_neg fun hstar => absurd hstar.1 (by decide),
      if_neg (by decide), if_neg hopening, if_neg hclosing, if_pos rfl]
    exact hsimple rfl
  simp only [if_neg hopening, if_neg hclosing, if_neg hcomma, slice_next h]
  by_cases hstars : c = '*' ∧ cs.head? = some '*'
  · obtain ⟨rfl, hnext⟩ := hstars
    obtain ⟨rest, rfl⟩ := List.head?_eq_some_iff.1 hnext
    have hpower : entryOf operatorTable '^' = .ok .power := entryOf_of_lookup (lookup_operatorTable '^')
    have hplace : placeOf s ('*' :: '*' :: rest) + 2 = placeOf s rest := (placeOf_drop h (by simp)).symm
    rw [if_pos ⟨rfl, rfl⟩, if_pos ⟨rfl, rfl⟩, hpower, ok_bind, hplace,
      ← pushed_of_not_begins tokens (t := .operator .power) rfl]
    rfl
  · have hsingle : ¬(c = '*' ∧ cs.take 1 = ['*']) := by
      rintro ⟨hc, htake⟩
      refine hstars ⟨hc, ?_⟩
      cases cs with
      | nil => cases htake
      | cons d cs => exact congrArg some (List.cons.inj htake).1
    rw [if_neg hstars, if_neg hsingle, lookup_operatorTable]
    cases hop : Operator.ofSymbol? c with
    | some op =>
      have hsome : (some op).isSome = true := rfl
      rw [if_pos hsome, entryOf_of_lookup ((lookup_operatorTable c).trans hop), ok_bind]
      exact hsimple rfl
    | none =>
      rfl

end Step

/-! ### The whole text -/

/-- From any rest of the text on, the loop pushes the tokens that the lexer scans. -/
private theorem loop_eq (answer : Option Double) {s rest : List Char} (h : rest <:+ s) {n : Nat} (hn : rest.length ≤ n)
    (tokens : List Token) :
    loop answer s n (placeOf s rest) tokens =
      untrapped ((scan (.ofOption answer) rest).map fun ts => (ts.foldl pushed tokens).reverse) := by
  induction n generalizing rest tokens with
  | zero =>
    obtain rfl := List.length_eq_zero_iff.1 (Nat.le_zero.1 hn)
    rw [loop, if_neg (by simp [placeOf]), scan]
    rfl
  | succ n ih =>
    cases rest with
    | nil =>
      rw [loop, if_neg (by simp [placeOf]), scan]
      rfl
    | cons c cs =>
      rw [loop, if_pos (placeOf_lt h), step_eq answer h]
      cases hread : readToken (.ofOption answer) c cs with
      | error e =>
        rw [scan]
        split
        · rename_i heq
          rw [hread] at heq
          cases heq
          rfl
        · rename_i heq
          rw [hread] at heq
          cases heq
      | ok r =>
        obtain ⟨t, after⟩ := r
        have hafter : after <:+ s := by
          obtain ⟨i, hi, -⟩ := exists_item_of_readToken hread
          exact (hi.spelling_append ▸ List.suffix_append _ _).trans h
        have hlength : after.length ≤ n := Nat.le_trans (length_of_readToken hread) (Nat.le_of_succ_le_succ hn)
        rw [scan_cons hread]
        change loop answer s n (placeOf s after) (pushed tokens t) = _
        rw [ih hafter hlength]
        cases scan (.ofOption answer) after <;> rfl

/-- Lexing by places does not trap, and its tokens are those of the lexer. -/
theorem tokens_eq (answer : Option Double) (s : List Char) :
    tokens answer s = untrapped (lex (.ofOption answer) s) := by
  have hplace : placeOf s s = 0 := Nat.sub_self _
  rw [tokens, ← hplace, loop_eq answer (List.suffix_refl s) (Nat.le_refl _), lex]
  simp only [reverse_pushed]

end RawLexing

end DeskCalc
