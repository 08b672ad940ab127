import DeskCalc.Proofs.ItemReading

/-!
# The lexer accepts exactly its grammar

A text is accepted exactly if compatible items spell it, the items are unique, and the tokens are theirs with the
products that are meant between them (`lex_accepts_items`).
-/

namespace DeskCalc

variable {previous : PreviousAnswer}

theorem scan_cons {c : Char} {cs : List Char} {t : Token} {after : List Char}
    (h : readToken previous c cs = .ok (t, after)) :
    scan previous (c :: cs) = (scan previous after).map (t :: ·) := by
  rw [scan]
  split
  · rename_i heq
    rw [h] at heq
    cases heq
  · rename_i heq
    rw [h] at heq
    cases heq
    rfl

namespace Item

private theorem head?_flatMap_spelling (items : List Item) : (items.flatMap spelling).head? ≠ some 'x' := by
  cases items with
  | nil => simp
  | cons j rest =>
    obtain ⟨c, cs, hj, hx, -⟩ := j.exists_spelling
    simpa [hj] using hx

/-- The first item of a compatible list is read first. -/
theorem Compatible.readToken {i : Item} {rest : List Item} (h : Compatible previous.number? (i :: rest)) :
    ∃ c cs, (i :: rest).flatMap spelling = c :: cs ∧
      DeskCalc.readToken previous c cs = .ok (i.token (previous.number?.getD .nan), rest.flatMap spelling) := by
  rw [List.flatMap_cons]
  exact readToken_spelling i ((mayPrecede_iff i rest).1 h.1) (head?_flatMap_spelling rest) h.2.1

private theorem Compatible.scan_eq {items : List Item} (h : Compatible previous.number? items) :
    scan previous (items.flatMap spelling) = .ok (items.map (token (previous.number?.getD .nan))) := by
  induction items with
  | nil => simp [scan]
  | cons i rest ih =>
    obtain ⟨c, cs, hs, hread⟩ := h.readToken
    rw [hs, scan_cons hread, ih h.2.2]
    rfl

/-- An item is determined by its token and its text. -/
private theorem eq_of_token_eq {i j : Item} {answer : Double} (htoken : i.token answer = j.token answer)
    (hspelling : i.spelling = j.spelling) : i = j := by
  cases i with
  | literal l =>
    cases j with
    | literal l' =>
      obtain ⟨text, _, _, _, _⟩ := l
      obtain ⟨text', _, _, _, _⟩ := l'
      cases (show text = text' from hspelling)
      rfl
    | _ => cases htoken
  | constant k =>
    cases j with
    | constant k' => cases k <;> cases k' <;> first | rfl | exact absurd hspelling (by decide)
    | piSign => cases k <;> exact absurd hspelling (by decide)
    | _ => cases htoken
  | piSign =>
    cases j with
    | constant k => cases k <;> exact absurd hspelling (by decide)
    | piSign => rfl
    | _ => cases htoken
  | operator op hop =>
    cases j with
    | operator op' hop' =>
      cases htoken
      rfl
    | doubleStar => exact absurd hspelling (by simp [spelling])
    | _ => cases htoken
  | doubleStar =>
    cases j with
    | operator op hop => exact absurd hspelling (by simp [spelling])
    | doubleStar => rfl
    | _ => cases htoken
  | function f =>
    cases j with
    | function f' =>
      cases htoken
      rfl
    | rootSign =>
      cases htoken
      exact absurd hspelling (by decide)
    | _ => cases htoken
  | rootSign =>
    cases j with
    | function f =>
      cases htoken
      exact absurd hspelling (by decide)
    | rootSign => rfl
    | _ => cases htoken
  | previous => cases j <;> first | rfl | cases htoken
  | opening => cases j <;> first | rfl | cases htoken
  | closing => cases j <;> first | rfl | cases htoken
  | comma => cases j <;> first | rfl | cases htoken

/-- Only one compatible list of items spells a text. -/
theorem Compatible.unique {items items' : List Item} (h : Compatible previous.number? items)
    (h' : Compatible previous.number? items') (hs : items.flatMap spelling = items'.flatMap spelling) :
    items = items' := by
  induction items generalizing items' with
  | nil =>
    cases items' with
    | nil => rfl
    | cons j rest' =>
      obtain ⟨c, cs, hj, -⟩ := h'.readToken
      rw [hj] at hs
      cases hs
  | cons i rest ih =>
    obtain ⟨c, cs, hi, hread⟩ := h.readToken
    cases items' with
    | nil =>
      rw [hi] at hs
      cases hs
    | cons j rest' =>
      obtain ⟨c', cs', hj, hread'⟩ := h'.readToken
      -- the same text is read in both ways, so the first token and the rest of the text agree
      rw [hi, hj] at hs
      cases hs
      rw [hread'] at hread
      simp only [Except.ok.injEq, Prod.mk.injEq] at hread
      have hfirst : j.spelling = i.spelling := by
        rw [List.flatMap_cons] at hi hj
        rw [hread.2, ← hi] at hj
        exact List.append_cancel_right hj
      rw [eq_of_token_eq hread.1 hfirst, ih h.2.2 h'.2.2 hread.2.symm]

private theorem endsOperand_token (i : Item) (answer : Double) : (i.token answer).endsOperand = i.endsOperand := by
  cases i <;> rfl

theorem beginsOperand_token (i : Item) (answer : Double) : (i.token answer).beginsOperand = i.beginsOperand := by
  cases i <;> rfl

/-- The products are written between the items where they are written between their tokens. -/
private theorem withProducts_map_token (answer : Double) (items : List Item) :
    withProducts (items.map (token answer)) = tokensOf answer items := by
  induction items with
  | nil => rfl
  | cons i rest ih =>
    cases rest with
    | nil => rfl
    | cons j rest =>
      simp only [List.map_cons] at ih
      simp only [List.map_cons, withProducts, tokensOf, endsOperand_token, beginsOperand_token, ih]
      split <;> rfl

end Item

/-- Everything that is scanned is spelled by compatible items. -/
private theorem exists_items_of_scan {cs : List Char} {ts : List Token} (h : scan previous cs = .ok ts) :
    ∃ items, Spells previous.number? items cs ∧ ts = items.map (Item.token (previous.number?.getD .nan)) := by
  induction hn : cs.length using Nat.strongRecOn generalizing cs ts with
  | ind n ih =>
    cases cs with
    | nil =>
      simp only [scan, Except.ok.injEq] at h
      exact ⟨[], ⟨trivial, rfl⟩, h.symm⟩
    | cons c cs =>
      cases hread : readToken previous c cs with
      | error e =>
        rw [scan] at h
        split at h
        · cases h
        · rename_i heq
          rw [hread] at heq
          cases heq
      | ok r =>
        obtain ⟨t, after⟩ := r
        rw [scan_cons hread] at h
        cases hrest : scan previous after with
        | error e =>
          rw [hrest] at h
          cases h
        | ok us =>
          rw [hrest] at h
          cases h
          have hlt : after.length < n := by
            have := length_of_readToken hread
            simp only [List.length_cons] at hn this
            omega
          obtain ⟨items, ⟨hcompat, hspell⟩, rfl⟩ := ih after.length hlt hrest rfl
          obtain ⟨i, hi, rfl⟩ := exists_item_of_readToken hread
          have hmay : i.mayPrecede items.head? := by
            rw [Item.mayPrecede_iff, hspell]
            exact hi.endsBefore
          refine ⟨i :: items, ⟨⟨hmay, hi.answer_isSome, hcompat⟩, ?_⟩, rfl⟩
          rw [List.flatMap_cons, hspell, hi.spelling_append]

/-- The lexer returns the tokens of the items that spell a text. -/
theorem Spells.lex_eq {items : List Item} {s : List Char} (h : Spells previous.number? items s) :
    lex previous s = .ok (Item.tokensOf (previous.number?.getD .nan) items) := by
  obtain ⟨hcompat, rfl⟩ := h
  rw [lex, hcompat.scan_eq, ← Item.withProducts_map_token]
  rfl

theorem exists_items_of_lex {s : List Char} {ts : List Token} (h : lex previous s = .ok ts) :
    ∃ items, Spells previous.number? items s ∧ ts = Item.tokensOf (previous.number?.getD .nan) items := by
  cases hscan : scan previous s with
  | error e =>
    rw [lex, hscan] at h
    cases h
  | ok us =>
    rw [lex, hscan] at h
    cases h
    obtain ⟨items, hspells, rfl⟩ := exists_items_of_scan hscan
    exact ⟨items, hspells, Item.withProducts_map_token _ _⟩

/-- The lexer accepts exactly the texts that are spelled by compatible items.  These are unique, and the result is
their tokens with a product between any two neighbours that end and begin an operand. -/
theorem lex_accepts_items (previous : PreviousAnswer) (s : List Char) :
    ((∃ ts, lex previous s = .ok ts) ↔ ∃ items, Spells previous.number? items s) ∧
      ∀ items, Spells previous.number? items s →
        lex previous s = .ok (Item.tokensOf (previous.number?.getD .nan) items) ∧
          ∀ items', Spells previous.number? items' s → items' = items := by
  refine ⟨⟨?_, ?_⟩, fun items h => ⟨h.lex_eq, fun items' h' => ?_⟩⟩
  · rintro ⟨ts, h⟩
    obtain ⟨items, hspells, -⟩ := exists_items_of_lex h
    exact ⟨items, hspells⟩
  · rintro ⟨items, h⟩
    exact ⟨_, h.lex_eq⟩
  · exact h'.compatible.unique h.compatible (h'.spelling_eq.trans h.spelling_eq.symm)

end DeskCalc
