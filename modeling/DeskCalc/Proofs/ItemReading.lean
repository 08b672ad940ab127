import DeskCalc.Proofs.Item

/-!
# Reading one item

The first token of a text, read item by item.  An item that is complete before the rest of the text
(`Item.endsBefore`) is read as its token (`readToken_spelling`), and whatever token is read belongs to such an item
(`exists_item_of_readToken`).

The words need the table of names: letters are read greedily, so a constant is found only because no longer name
begins like it and an item after it (`Function.not_prefix_constant`).
-/

namespace DeskCalc

/-! ### Words -/

/-- A letter begins no item but a word. -/
private theorem isLiteralChar_of_isAlpha {c : Char} (h : c.isAlpha = true) : isLiteralChar c = false := by
  rw [Bool.eq_false_iff]
  intro hlit
  have hall : literalChars.all (fun c => !c.isAlpha) = true := by decide
  have hnot := of_isLiteralChar hall hlit
  rw [h] at hnot
  exact Bool.noConfusion hnot

/-- The name of a function is read as a word if a parenthesis follows. -/
theorem Function.exists_name (f : Function) : ∃ c cs, f.name.toList = c :: cs ∧ c.isAlpha = true ∧ c ≠ 'x' ∧
    ∀ rest, readWord c (cs ++ '(' :: rest) = .ok (.function f, '(' :: rest) := by
  cases f <;> exact ⟨_, _, rfl, rfl, by decide, fun _ => rfl⟩

theorem Function.name_of_ofName? {w : String} {f : Function} (h : Function.ofName? w = some f) : f.name = w := by
  simpa using List.find?_some h

theorem mem_knownWords {w : List Char × Token} (h : w ∈ knownWords) :
    (∃ f : Function, w = (f.name.toList, .function f)) ∨ ∃ k : Constant, w = (k.name.toList, .ofConstant k) := by
  simp only [knownWords, List.mem_append, List.mem_map] at h
  rcases h with ⟨f, -, rfl⟩ | ⟨k, -, rfl⟩
  · exact .inl ⟨f, rfl⟩
  · exact .inr ⟨k, rfl⟩

private theorem foldl_longerWord {best w : Option (List Char × Token)} {l : List (List Char × Token)}
    (h : l.foldl longerWord best = w) : (w = best ∧ (best = none → l = [])) ∨ ∃ v ∈ l, w = some v := by
  induction l generalizing best with
  | nil => exact .inl ⟨h.symm, fun _ => rfl⟩
  | cons a l ih =>
    rcases ih h with ⟨hw, -⟩ | ⟨v, hv, hw⟩
    · cases best with
      | none => exact .inr ⟨a, by simp, hw⟩
      | some b =>
        by_cases hlt : b.1.length < a.1.length
        · exact .inr ⟨a, by simp, by simpa [longerWord, hlt] using hw⟩
        · exact .inl ⟨by simpa [longerWord, hlt] using hw, by simp⟩
    · exact .inr ⟨v, by simp [hv], hw⟩

/-- The longest word is a known word that the letters begin with. -/
theorem longestWord?_eq_some {letters : List Char} {w : List Char × Token} (h : longestWord? letters = some w) :
    w ∈ knownWords ∧ w.1 <+: letters := by
  rcases foldl_longerWord h with ⟨hw, -⟩ | ⟨v, hv, hw⟩
  · exact absurd hw (by simp)
  · cases hw
    rw [List.mem_filter, List.isPrefixOf_iff_prefix] at hv
    exact hv

/-- If the letters begin with only one known word, it is the longest. -/
private theorem longestWord?_eq_of_unique {letters : List Char} {w : List Char × Token} (hmem : w ∈ knownWords)
    (hpre : w.1 <+: letters) (huniq : ∀ v ∈ knownWords, v.1 <+: letters → v = w) :
    longestWord? letters = some w := by
  cases h : longestWord? letters with
  | some v =>
    obtain ⟨hv, hvpre⟩ := longestWord?_eq_some h
    rw [huniq v hv hvpre]
  | none =>
    rcases foldl_longerWord h with ⟨-, hnil⟩ | ⟨v, -, hv⟩
    · have : w ∈ knownWords.filter fun w => w.1.isPrefixOf letters :=
        List.mem_filter.2 ⟨hmem, List.isPrefixOf_iff_prefix.2 hpre⟩
      rw [hnil rfl] at this
      exact absurd this List.not_mem_nil
    · exact absurd hv (by simp)

/-- No function begins like a constant, unless the letter `x` follows the constant `e`. -/
theorem Function.not_prefix_constant (f : Function) {k : Constant} {rest : List Char} (hx : rest.head? ≠ some 'x') :
    ¬ f.name.toList <+: k.name.toList ++ rest := by
  rw [← List.isPrefixOf_iff_prefix]
  cases rest with
  | nil => cases k <;> cases f <;> exact Bool.false_ne_true
  | cons x rest =>
    have hx' : ('x' == x) = false := by
      rw [beq_eq_false_iff_ne]
      rintro rfl
      exact hx rfl
    have hexp : ∀ cs : List Char, ('e' :: 'x' :: cs).isPrefixOf ('e' :: x :: rest) = false := by
      intro cs
      simp [List.isPrefixOf, hx']
    cases k with
    | e =>
      cases f with
      | exp => exact Bool.eq_false_iff.1 (hexp ['p'])
      | exp2 => exact Bool.eq_false_iff.1 (hexp ['p', '2'])
      | _ => exact Bool.false_ne_true
    | pi => cases f <;> exact Bool.false_ne_true

private theorem Constant.eq_of_prefix {k k' : Constant} {rest : List Char}
    (h : k'.name.toList <+: k.name.toList ++ rest) : k' = k := by
  rw [← List.isPrefixOf_iff_prefix] at h
  cases k <;> cases k' <;> first | rfl | exact absurd h Bool.false_ne_true

/-- A constant is read as a word unless the letter `x` follows. -/
theorem Constant.exists_name (k : Constant) : ∃ c cs, k.name.toList = c :: cs ∧ c.isAlpha = true ∧ c ≠ 'x' ∧
    ∀ rest : List Char, rest.head? ≠ some 'x' → readWord c (cs ++ rest) = .ok (.ofConstant k, rest) := by
  obtain ⟨c, cs, hname, hc, hcx, hall⟩ : ∃ c cs, k.name.toList = c :: cs ∧ c.isAlpha = true ∧ c ≠ 'x' ∧
      cs.all Char.isAlpha = true := by
    cases k <;> exact ⟨_, _, rfl, rfl, by decide, rfl⟩
  have halpha : ∀ d ∈ cs, d.isAlpha = true := List.all_eq_true.1 hall
  refine ⟨c, cs, hname, hc, hcx, fun rest hx => ?_⟩
  have hhead : ∀ m : List Char, m <+: rest → m.head? ≠ some 'x' := by
    rintro m ⟨t, rfl⟩
    cases m with
    | nil => simp
    | cons d m => exact hx
  have hletters : c :: (cs ++ rest).takeWhile Char.isAlpha = k.name.toList ++ rest.takeWhile Char.isAlpha := by
    rw [List.takeWhile_append_of_pos halpha, hname, List.cons_append]
  have hafter : (cs ++ rest).dropWhile Char.isAlpha = rest.dropWhile Char.isAlpha :=
    List.dropWhile_append_of_pos halpha
  have hlong : longestWord? (c :: (cs ++ rest).takeWhile Char.isAlpha) = some (k.name.toList, .ofConstant k) := by
    rw [hletters]
    refine longestWord?_eq_of_unique (by cases k <;> simp [knownWords, Constant.all]) (List.prefix_append _ _) ?_
    intro v hv hpre
    rcases mem_knownWords hv with ⟨f, rfl⟩ | ⟨k', rfl⟩
    · exact absurd hpre (f.not_prefix_constant (hhead _ (List.takeWhile_prefix _)))
    · rw [Constant.eq_of_prefix hpre]
  -- digits after the letters do not make the name of a function
  have hnumbered : ∀ digits : List Char, digits <+: rest.dropWhile Char.isAlpha →
      Function.ofName? (String.ofList (c :: (cs ++ rest).takeWhile Char.isAlpha ++ digits)) = none := by
    intro digits hdigits
    cases h : Function.ofName? (String.ofList (c :: (cs ++ rest).takeWhile Char.isAlpha ++ digits)) with
    | none => rfl
    | some f =>
      have hf := congrArg String.toList (Function.name_of_ofName? h)
      rw [String.toList_ofList, hletters, List.append_assoc] at hf
      have hpre : rest.takeWhile Char.isAlpha ++ digits <+: rest := by
        obtain ⟨t, ht⟩ := hdigits
        refine ⟨t, ?_⟩
        rw [List.append_assoc, ht, List.takeWhile_append_dropWhile]
      exact absurd ⟨[], by rw [List.append_nil, hf]⟩ (f.not_prefix_constant (hhead _ hpre))
  have hnone := hnumbered _ (List.takeWhile_prefix isAsciiDigit)
  have hdrop : (cs ++ rest).drop (k.name.toList.length - 1) = rest := by
    rw [hname, List.length_cons, Nat.add_sub_cancel, List.drop_left]
  simp only [readWord, hafter, hnone, ite_self, hlong, hdrop]
  rfl

namespace Item

/-- The characters before which an item is complete: the counterpart of `mayPrecede` on texts. -/
def endsBefore : Item → Option Char → Prop
  | literal _, next => ∀ c, next = some c → isLiteralChar c = false
  | operator .multiply _, next => next ≠ some '*'
  | function _, next => next = some '('
  | rootSign, next => next = some '('
  | _, _ => True

/-- What the first character of an item tells about the item.  No item begins with the letter `x`, by which a longer
word could follow the constant `e`. -/
theorem exists_spelling (j : Item) : ∃ c cs, j.spelling = c :: cs ∧ c ≠ 'x' ∧
    (isLiteralChar c = true ↔ ∃ l, j = literal l) ∧
    (c = '*' ↔ (∃ h, j = operator .multiply h) ∨ j = doubleStar) ∧ (c = '(' ↔ j = opening) := by
  have hword : ∀ {c : Char}, c.isAlpha = true → isLiteralChar c = false ∧ c ≠ '*' ∧ c ≠ '(' := by
    refine fun {c} hc => ⟨isLiteralChar_of_isAlpha hc, ?_, ?_⟩ <;> rintro rfl <;> exact absurd hc (by decide)
  cases j with
  | literal l =>
    cases h : l.text with
    | nil => exact absurd h l.ne_nil
    | cons c cs =>
      have hc : isLiteralChar c = true := l.isLiteralChar_of_mem c (by simp [h])
      have hne : ∀ d, isLiteralChar d = false → c ≠ d := by
        rintro d hd rfl
        rw [hc] at hd
        exact Bool.noConfusion hd
      exact ⟨c, cs, h, hne 'x' (by decide), by simp [hc], by simp [hne '*' (by decide)], by simp [hne '(' (by decide)]⟩
  | constant k =>
    obtain ⟨c, cs, hname, hc, hx, -⟩ := k.exists_name
    exact ⟨c, cs, hname, hx, by simp [hword hc], by simp [hword hc], by simp [hword hc]⟩
  | function f =>
    obtain ⟨c, cs, hname, hc, hx, -⟩ := f.exists_name
    exact ⟨c, cs, hname, hx, by simp [hword hc], by simp [hword hc], by simp [hword hc]⟩
  | operator op hop =>
    refine ⟨op.symbol, [], rfl, ?_⟩
    cases op <;> simp [Operator.symbol, isLiteralChar, isAsciiDigit] at hop ⊢
  | piSign => exact ⟨'π', [], rfl, by simp [isLiteralChar, isAsciiDigit]⟩
  | previous => exact ⟨'_', [], rfl, by simp [isLiteralChar, isAsciiDigit]⟩
  | doubleStar => exact ⟨'*', ['*'], rfl, by simp [isLiteralChar, isAsciiDigit]⟩
  | opening => exact ⟨'(', [], rfl, by simp [isLiteralChar, isAsciiDigit]⟩
  | closing => exact ⟨')', [], rfl, by simp [isLiteralChar, isAsciiDigit]⟩
  | comma => exact ⟨',', [], rfl, by simp [isLiteralChar, isAsciiDigit]⟩
  | rootSign => exact ⟨'√', [], rfl, by simp [isLiteralChar, isAsciiDigit]⟩

/-- An item may precede others if it is complete before their text. -/
theorem mayPrecede_iff (i : Item) (items : List Item) :
    i.mayPrecede items.head? ↔ i.endsBefore (items.flatMap spelling).head? := by
  cases items with
  | nil =>
    cases i with
    | operator op hop => cases op <;> simp [mayPrecede, endsBefore]
    | _ => simp [mayPrecede, endsBefore]
  | cons j rest =>
    obtain ⟨c, cs, hj, -, hlit, hstar, hparen⟩ := j.exists_spelling
    have hhead : ((j :: rest).flatMap spelling).head? = some c := by simp [hj]
    rw [hhead, List.head?_cons]
    cases i with
    | literal l =>
      have hc : isLiteralChar c = false ↔ ∀ l, j ≠ literal l := by simp [← Bool.not_eq_true, hlit]
      simp only [endsBefore, Option.some.injEq, forall_eq', hc]
      cases j <;> simp [mayPrecede]
    | operator op hop =>
      cases op with
      | multiply =>
        have hc : c ≠ '*' ↔ (∀ h, j ≠ operator .multiply h) ∧ j ≠ doubleStar := by simp [hstar]
        simp only [endsBefore, ne_eq, Option.some.injEq]
        rw [← ne_eq, hc]
        cases j with
        | operator op' hop' => cases op' <;> simp [mayPrecede]
        | _ => simp [mayPrecede]
      | _ => simp [mayPrecede, endsBefore]
    | function f => simp [mayPrecede, endsBefore, hparen]
    | rootSign => simp [mayPrecede, endsBefore, hparen]
    | _ => simp [mayPrecede, endsBefore]

end Item

/-! ### One token -/

private theorem PreviousAnswer.token_eq_ok_iff {previous : PreviousAnswer} {t : Token} :
    previous.token = .ok t ↔ ∃ x, previous.number? = some x ∧ t = .previous x := by
  cases previous with
  | absent => simp [PreviousAnswer.token, PreviousAnswer.number?]
  | value x => simp [PreviousAnswer.token, PreviousAnswer.number?, eq_comm]
  | text s => cases h : readDouble s.toList <;> simp [PreviousAnswer.token, PreviousAnswer.number?, h, eq_comm]

private theorem literalToken_text (l : Literal) :
    literalToken l.text = .ok (.number ((readDouble l.text).getD .nan)) := by
  have hbad : (1 < l.text.count '.' || l.text == ['.']) = false := by
    simp [Nat.not_lt.2 l.count_point_le, l.ne_point]
  simp [literalToken, hbad, l.readDouble_text]

variable {previous : PreviousAnswer}

/-- A literal is read up to its end. -/
private theorem readToken_literal (l : Literal) {rest : List Char} (hend : (Item.literal l).endsBefore rest.head?) :
    ∃ c cs, l.text ++ rest = c :: cs ∧
      readToken previous c cs = .ok (.number ((readDouble l.text).getD .nan), rest) := by
  cases h : l.text with
  | nil => exact absurd h l.ne_nil
  | cons c cs =>
    have hall : ∀ d ∈ cs, isLiteralChar d = true := fun d hd => l.isLiteralChar_of_mem d (by simp [h, hd])
    have hc : isLiteralChar c = true := l.isLiteralChar_of_mem c (by simp [h])
    have hstop : rest.takeWhile isLiteralChar = [] ∧ rest.dropWhile isLiteralChar = rest := by
      cases rest with
      | nil => exact ⟨rfl, rfl⟩
      | cons d rest =>
        have hd := hend d rfl
        simp [hd]
    refine ⟨c, cs ++ rest, rfl, ?_⟩
    rw [readToken, if_pos hc, List.takeWhile_append_of_pos hall, List.dropWhile_append_of_pos hall, hstop.1, hstop.2,
      List.append_nil, ← h, literalToken_text]
    rfl

/-- The lexer reads an item that is complete. -/
theorem readToken_spelling (i : Item) {rest : List Char} (hend : i.endsBefore rest.head?) (hx : rest.head? ≠ some 'x')
    (hprev : i = .previous → previous.number?.isSome = true) :
    ∃ c cs, i.spelling ++ rest = c :: cs ∧
      readToken previous c cs = .ok (i.token (previous.number?.getD .nan), rest) := by
  cases i with
  | literal l => exact readToken_literal l hend
  | constant k =>
    obtain ⟨c, cs, hname, hc, -, hread⟩ := k.exists_name
    refine ⟨c, cs ++ rest, by simp [Item.spelling, hname], ?_⟩
    rw [readToken, if_neg (by simp [isLiteralChar_of_isAlpha hc]), if_pos hc, hread rest hx]
    rfl
  | function f =>
    obtain ⟨c, cs, hname, hc, -, hread⟩ := f.exists_name
    obtain ⟨rest, rfl⟩ := List.head?_eq_some_iff.1 hend
    refine ⟨c, cs ++ '(' :: rest, by simp [Item.spelling, hname], ?_⟩
    rw [readToken, if_neg (by simp [isLiteralChar_of_isAlpha hc]), if_pos hc, hread rest]
    rfl
  | previous =>
    obtain ⟨x, hx⟩ := Option.isSome_iff_exists.1 (hprev rfl)
    refine ⟨'_', rest, rfl, ?_⟩
    have htoken : previous.token = .ok (.previous x) := PreviousAnswer.token_eq_ok_iff.2 ⟨x, hx, rfl⟩
    change (previous.token.map fun t => (t, rest)) = _
    rw [htoken, hx]
    rfl
  | operator op hop =>
    refine ⟨op.symbol, rest, rfl, ?_⟩
    cases op with
    | multiply =>
      change (if '*' = '*' ∧ rest.head? = some '*' then _ else _) = _
      rw [if_neg fun h => hend h.2]
      rfl
    | negate => exact absurd rfl hop
    | _ => rfl
  | rootSign =>
    obtain ⟨rest, rfl⟩ := List.head?_eq_some_iff.1 hend
    exact ⟨'√', '(' :: rest, rfl, rfl⟩
  | piSign => exact ⟨'π', rest, rfl, rfl⟩
  | doubleStar => exact ⟨'*', '*' :: rest, rfl, rfl⟩
  | opening => exact ⟨'(', rest, rfl, rfl⟩
  | closing => exact ⟨')', rest, rfl, rfl⟩
  | comma => exact ⟨',', rest, rfl, rfl⟩

theorem followedBy_eq_ok {t : Token} {rest : List Char} {r : Token × List Char} (h : followedBy t rest = .ok r) :
    r = (t, rest) ∧ ∀ f, t = .function f → rest.head? = some '(' := by
  unfold followedBy at h
  split at h
  · rename_i f
    split at h
    · rename_i hparen
      cases h
      exact ⟨rfl, fun _ _ => hparen⟩
    · cases h
  · rename_i hne
    cases h
    exact ⟨rfl, fun f hf => absurd hf (hne f)⟩

/-- The item comes first in the text `s`, is complete before the rest `after`, and may be used with the answer. -/
structure Item.ReadFrom (answer : Option Double) (i : Item) (s after : List Char) : Prop where
  spelling_append : i.spelling ++ after = s
  endsBefore : i.endsBefore after.head?
  answer_isSome : i = .previous → answer.isSome = true

/-- A word that is read is a function before its parenthesis or a constant. -/
private theorem exists_item_of_readWord {c : Char} {cs : List Char} {t : Token} {after : List Char}
    (h : readWord c cs = .ok (t, after)) (answer : Option Double) :
    ∃ i : Item, i.ReadFrom answer (c :: cs) after ∧ t = i.token (answer.getD .nan) := by
  unfold readWord at h
  simp only at h
  split at h
  · rename_i f hnumbered
    obtain ⟨hr, hparen⟩ := followedBy_eq_ok h
    cases hr
    have hf : Function.ofName? (String.ofList (c :: cs.takeWhile Char.isAlpha ++
        (cs.dropWhile Char.isAlpha).takeWhile isAsciiDigit)) = some f := by
      split at hnumbered
      · cases hnumbered
      · exact hnumbered
    have hname := congrArg String.toList (Function.name_of_ofName? hf)
    rw [String.toList_ofList] at hname
    refine ⟨.function f, ⟨?_, hparen f rfl, fun hi => absurd hi (by simp)⟩, rfl⟩
    rw [Item.spelling, hname, List.append_assoc, List.takeWhile_append_dropWhile, List.cons_append,
      List.takeWhile_append_dropWhile]
  · -- no function has this name, so a known word is split off
    split at h
    · rename_i word t' hlong
      obtain ⟨hr, hparen⟩ := followedBy_eq_ok h
      cases hr
      obtain ⟨hmem, hpre⟩ := longestWord?_eq_some hlong
      have hall : word <+: c :: cs := hpre.trans (by simpa using List.takeWhile_prefix _)
      have hsplit : ∀ d ds, word = d :: ds → word ++ cs.drop (word.length - 1) = c :: cs := by
        rintro d ds rfl
        obtain ⟨m, hm⟩ := hall
        rw [List.cons_append, List.cons.injEq] at hm
        obtain ⟨rfl, rfl⟩ := hm
        simp
      rcases mem_knownWords hmem with ⟨f, hw⟩ | ⟨k, hw⟩
      · cases hw
        obtain ⟨d, ds, hname, -⟩ := f.exists_name
        exact ⟨.function f, ⟨hsplit d ds hname, hparen f rfl, fun hi => absurd hi (by simp)⟩, rfl⟩
      · cases hw
        obtain ⟨d, ds, hname, -⟩ := k.exists_name
        exact ⟨.constant k, ⟨hsplit d ds hname, trivial, fun hi => absurd hi (by simp)⟩, rfl⟩
    · cases h

/-- The token of a run of digits and points belongs to a literal. -/
theorem exists_literal_of_literalToken {c : Char} {cs : List Char} {t : Token} (hc : isLiteralChar c = true)
    (h : literalToken (c :: cs.takeWhile isLiteralChar) = .ok t) :
    ∃ l : Literal, l.text = c :: cs.takeWhile isLiteralChar ∧ t = .number ((readDouble l.text).getD .nan) := by
  have hgood := h
  simp only [literalToken] at hgood
  split at hgood
  · cases hgood
  · rename_i hbad
    simp only [Bool.or_eq_true, decide_eq_true_eq, beq_iff_eq, not_or, Nat.not_lt] at hbad
    have hall : ∀ d ∈ c :: cs.takeWhile isLiteralChar, isLiteralChar d = true := by
      intro d hd
      rcases List.mem_cons.1 hd with rfl | hd
      · exact hc
      · exact List.mem_takeWhile_imp hd
    let l : Literal := ⟨c :: cs.takeWhile isLiteralChar, List.cons_ne_nil _ _, hall, hbad.1, hbad.2⟩
    have ht := literalToken_text l
    rw [h] at ht
    exact ⟨l, rfl, Except.ok.inj ht⟩

private theorem Operator.symbol_of_ofSymbol? {c : Char} {op : Operator} (h : Operator.ofSymbol? c = some op) :
    op ≠ .negate ∧ op.symbol = c := by
  unfold Operator.ofSymbol? at h
  split at h <;> cases h <;> exact ⟨by decide, rfl⟩

/-- Whatever token is read belongs to an item that is complete. -/
theorem exists_item_of_readToken {c : Char} {cs : List Char} {t : Token} {after : List Char}
    (h : readToken previous c cs = .ok (t, after)) :
    ∃ i : Item, i.ReadFrom previous.number? (c :: cs) after ∧ t = i.token (previous.number?.getD .nan) := by
  have hsimple : ∀ {i : Item}, i.endsBefore after.head? → i ≠ .previous → i.spelling ++ after = c :: cs →
      i.ReadFrom previous.number? (c :: cs) after := fun hend hi hs => ⟨hs, hend, fun hp => absurd hp hi⟩
  unfold readToken at h
  split at h
  · rename_i hc
    cases hlit : literalToken (c :: cs.takeWhile isLiteralChar) with
    | error e =>
      rw [hlit] at h
      cases h
    | ok t' =>
      rw [hlit] at h
      cases h
      obtain ⟨l, hl, ht⟩ := exists_literal_of_literalToken hc hlit
      refine ⟨.literal l, hsimple ?_ (by simp) ?_, ht⟩
      · -- the run stopped because the next character does not belong to a literal
        intro d hd
        have hnot := List.head?_dropWhile_not isLiteralChar cs
        rw [hd] at hnot
        simpa using hnot
      · rw [Item.spelling, hl, List.cons_append, List.takeWhile_append_dropWhile]
  split at h
  · exact exists_item_of_readWord h previous.number?
  split at h
  · rename_i hc
    cases h
    exact ⟨.piSign, hsimple trivial (by simp) (by simp [Item.spelling, hc]), rfl⟩
  split at h
  · rename_i hc
    obtain ⟨hr, hparen⟩ := followedBy_eq_ok h
    cases hr
    exact ⟨.rootSign, hsimple (hparen .sqrt rfl) (by simp) (by simp [Item.spelling, hc]), rfl⟩
  split at h
  · rename_i hc
    cases htoken : previous.token with
    | error e =>
      rw [htoken] at h
      cases h
    | ok t' =>
      rw [htoken] at h
      cases h
      obtain ⟨x, hx, rfl⟩ := PreviousAnswer.token_eq_ok_iff.1 htoken
      exact ⟨.previous, ⟨by simp [Item.spelling, hc], trivial, fun _ => by simp [hx]⟩, by simp [Item.token, hx]⟩
  split at h
  · rename_i hc
    cases h
    exact ⟨.opening, hsimple trivial (by simp) (by simp [Item.spelling, hc]), rfl⟩
  split at h
  · rename_i hc
    cases h
    exact ⟨.closing, hsimple trivial (by simp) (by simp [Item.spelling, hc]), rfl⟩
  split at h
  · rename_i hc
    cases h
    exact ⟨.comma, hsimple trivial (by simp) (by simp [Item.spelling, hc]), rfl⟩
  split at h
  · rename_i hc
    cases h
    obtain ⟨rest, rfl⟩ := List.head?_eq_some_iff.1 hc.2
    exact ⟨.doubleStar, hsimple trivial (by simp) (by simp [Item.spelling, hc.1]), rfl⟩
  split at h
  · rename_i hstar _ op hop
    cases h
    obtain ⟨hne, hsymbol⟩ := Operator.symbol_of_ofSymbol? hop
    refine ⟨.operator op hne, hsimple ?_ (by simp) (by simp [Item.spelling, hsymbol]), rfl⟩
    cases op with
    | multiply =>
      -- two stars would have been read as one sign
      exact fun hnext => hstar ⟨hsymbol.symm, hnext⟩
    | _ => trivial
  · cases h

end DeskCalc
