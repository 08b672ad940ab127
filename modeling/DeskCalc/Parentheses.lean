import DeskCalc.Fault

/-!
# Closing open parentheses

Input may leave parentheses open at its end.  `closeParentheses` appends what is missing; a closing parenthesis
without an opening one before it can never be repaired.
-/

namespace DeskCalc

/-- The number of open parentheses after `s`, starting with `depth`; none if one is closed that is not open. -/
def openAfter (depth : Nat) : List Char → Option Nat
  | [] => some depth
  | c :: rest =>
    if c = '(' then openAfter (depth + 1) rest
    else if c = ')' then
      match depth with
      | 0 => none
      | depth + 1 => openAfter depth rest
    else openAfter depth rest

/-- The text with every open parenthesis closed at its end. -/
def closeParentheses (s : List Char) : Except Fault (List Char) :=
  match openAfter 0 s with
  | some depth => .ok (s ++ List.replicate depth ')')
  | none => .error .unmatchedParenthesis

theorem openAfter_append (depth : Nat) (s t : List Char) :
    openAfter depth (s ++ t) = (openAfter depth s).bind fun d => openAfter d t := by
  induction s generalizing depth with
  | nil => rfl
  | cons c s ih =>
    simp only [List.cons_append, openAfter]
    split
    · exact ih _
    · split
      · cases depth with
        | zero => rfl
        | succ depth => exact ih _
      · exact ih _

theorem openAfter_replicate (d k : Nat) : openAfter (d + k) (List.replicate k ')') = some d := by
  induction k with
  | zero => rfl
  | succ k ih => simpa [openAfter, List.replicate_succ, ← Nat.add_assoc] using ih

theorem openAfter_of_not_mem {s : List Char} (hopen : '(' ∉ s) (hclose : ')' ∉ s) (depth : Nat) :
    openAfter depth s = some depth := by
  induction s with
  | nil => rfl
  | cons c s ih =>
    rw [List.mem_cons, not_or] at hopen hclose
    rw [openAfter.eq_def]
    simp only
    rw [if_neg (Ne.symm hopen.1), if_neg (Ne.symm hclose.1), ih hopen.2 hclose.2]

theorem closeParentheses_of_not_mem {s : List Char} (hopen : '(' ∉ s) (hclose : ')' ∉ s) :
    closeParentheses s = .ok s := by
  rw [closeParentheses, openAfter_of_not_mem hopen hclose]
  simp

end DeskCalc
