import DeskCalc.Proofs.Scanning

/-!
# Open parentheses, and what stands next to each other

What can be said about a list of tokens without its conversion: which parentheses are open, whose calls they belong to
and how many arguments have begun in them (`nest`); whether a comma is surplus (`CommasFit`); and what the lexer
guarantees about neighbours (`WellSpaced`, `wellSpaced_of_lex`).
-/

namespace DeskCalc

/-- An open parenthesis: the function that it belongs to, if it is a call, and the number of arguments begun. -/
structure OpenGroup where
  callee : Option Function
  arguments : Nat
  deriving DecidableEq, Repr

/-- The function that a parenthesis after the token `last` belongs to. -/
def calleeAfter : Option Token → Option Function
  | some (.function f) => some f
  | _ => none

/-- The open parentheses after one more token, innermost first. -/
def nest (last : Option Token) (groups : List OpenGroup) : Token → List OpenGroup
  | .opening => ⟨calleeAfter last, 1⟩ :: groups
  | .closing => groups.tail
  | .comma => groups.modifyHead fun g => ⟨g.callee, g.arguments + 1⟩
  | _ => groups

/-- The number of arguments that the group has room for: a bare one holds a single expression. -/
def OpenGroup.capacity (g : OpenGroup) : Nat :=
  match g.callee with
  | none => 1
  | some f => f.arity

/-- Whether an operand has just ended. -/
def ended (last : Option Token) : Bool :=
  last.any Token.endsOperand

/-- Every comma stands directly in a call that takes another argument; no comma is surplus. -/
def CommasFit (last : Option Token) (groups : List OpenGroup) : List Token → Prop
  | [] => True
  | t :: ts =>
    (t = .comma → ∃ g, groups.head? = some g ∧ g.arguments < g.capacity) ∧ CommasFit (some t) (nest last groups t) ts

/-! ### Neighbours -/

/-- Whether the token may come after `last`: a function is followed by its parenthesis, and an operand is not followed
by another one. -/
def Token.Follows (t : Token) : Option Token → Prop
  | some (.function _) => t = .opening
  | some u => u.endsOperand = true → t.beginsOperand = false
  | none => True

/-- Only the parenthesis of a call comes after a function. -/
theorem Token.Follows.calleeAfter_eq {t : Token} {last : Option Token} (h : t.Follows last) (hne : t ≠ .opening) :
    calleeAfter last = none := by
  cases last with
  | none => rfl
  | some u =>
    cases u with
    | function f => exact absurd h hne
    | _ => rfl

/-- What begins an operand does not come after an operand. -/
theorem Token.Follows.ended_eq {t : Token} {last : Option Token} (h : t.Follows last) (ht : t.beginsOperand = true) :
    ended last = false := by
  cases last with
  | none => rfl
  | some u =>
    rw [Bool.eq_false_iff]
    intro hends
    cases u with
    | function f => exact Bool.noConfusion hends
    | _ =>
      have hfalse := h hends
      rw [ht] at hfalse
      exact Bool.noConfusion hfalse

/-- What the lexer guarantees about the tokens after `last`: every token may follow the one before it, no function
comes last, and no operator is a sign change yet. -/
def WellSpaced (last : Option Token) : List Token → Prop
  | [] => ∀ f, last ≠ some (.function f)
  | t :: ts => t.Follows last ∧ t ≠ .operator .negate ∧ WellSpaced (some t) ts

/-- At the end no function waits for its parenthesis. -/
theorem WellSpaced.calleeAfter_eq {last : Option Token} (h : WellSpaced last []) : calleeAfter last = none := by
  cases last with
  | none => rfl
  | some u =>
    cases u with
    | function f => exact absurd rfl (h f)
    | _ => rfl

/-- The tokens of neighbouring items may follow each other, or a product separates them. -/
private theorem follows_of_mayPrecede {i j : Item} {rest : List Item} {answer : Double}
    (h : i.mayPrecede (j :: rest).head?) (hproduct : ¬ (i.endsOperand && j.beginsOperand) = true) :
    (j.token answer).Follows (some (i.token answer)) := by
  have hbegins : i.endsOperand = true → (j.token answer).beginsOperand = false := by
    intro hi
    rw [Item.beginsOperand_token]
    simpa [hi] using hproduct
  cases i with
  | function f =>
    cases h
    rfl
  | rootSign =>
    cases h
    rfl
  | _ => exact hbegins

private theorem wellSpaced_tokensOf {answer : Double} {answer? : Option Double} {items : List Item}
    (h : Item.Compatible answer? items) (last : Option Token)
    (hlast : ∀ i, items.head? = some i → (i.token answer).Follows last)
    (hend : items = [] → ∀ f, last ≠ some (.function f)) :
    WellSpaced last (Item.tokensOf answer items) := by
  induction items generalizing last with
  | nil => exact hend rfl
  | cons i rest ih =>
    have hnegate : i.token answer ≠ .operator .negate := by
      cases i with
      | operator op hop => simpa [Item.token] using hop
      | _ => simp [Item.token]
    have hfirst := hlast i rfl
    cases rest with
    | nil =>
      refine ⟨hfirst, hnegate, fun f hf => ?_⟩
      cases i with
      | function g => exact absurd h.1 (by simp [Item.mayPrecede])
      | rootSign => exact absurd h.1 (by simp [Item.mayPrecede])
      | _ => cases hf
    | cons j rest =>
      by_cases hproduct : (i.endsOperand && j.beginsOperand) = true
      · rw [Item.tokensOf, if_pos hproduct]
        refine ⟨hfirst, hnegate, ?_, by decide, ?_⟩
        · cases i <;> first | exact fun _ => rfl | exact absurd hproduct Bool.false_ne_true
        · exact ih h.2.2 _ (fun _ _ => fun hmultiply => absurd hmultiply Bool.false_ne_true) (by simp)
      · rw [Item.tokensOf, if_neg hproduct]
        refine ⟨hfirst, hnegate, ih h.2.2 _ ?_ (by simp)⟩
        rintro _ ⟨rfl⟩
        exact follows_of_mayPrecede h.1 hproduct

/-- The lexer's tokens are well spaced. -/
theorem wellSpaced_of_lex {previous : PreviousAnswer} {s : List Char} {ts : List Token}
    (h : lex previous s = .ok ts) : WellSpaced none ts := by
  obtain ⟨items, hspells, rfl⟩ := exists_items_of_lex h
  exact wellSpaced_tokensOf hspells.compatible none (fun _ _ => trivial) (by simp)

end DeskCalc
