import DeskCalc.Decimal.Reading
import DeskCalc.Elementary
import DeskCalc.Fault
import DeskCalc.Proofs.Computation

/-!
# Traps

A fault is something that is wrong with a problem, and the user gets a report of it.  A trap is something that goes
wrong inside: a partial operation is used where it is not defined, on a stack without entries, for a name that is not
in a table, or with a zero divisor.

The definitions of the calculator are total, so of them this cannot even be asked.  The modules on traps therefore
give each stage a second form, in which every partial operation is what it is and traps outside its domain, and
prove that the second form never traps and is the first one (`untrapped`).  This module has the partial operations
on lists, tables and texts.
-/

namespace DeskCalc

/-- What a partial operation signals where it is not defined. -/
inductive Trap where
  /-- A list or a stack has no entry in that place. -/
  | missingEntry
  /-- A table has no entry under that name. -/
  | missingName
  /-- The value does not have that part. -/
  | missingPart
  /-- A kernel takes another number of arguments. -/
  | wrongArguments
  /-- The text is no number. -/
  | unreadable
  /-- The divisor is zero. -/
  | zeroDivisor
  /-- The result has no place in its format. -/
  | unrepresentable
  /-- An elementary function signals a fault. -/
  | math (fault : MathFault)
  /-- A loop is not finished after as many rounds as there are characters. -/
  | endless
  deriving DecidableEq, Repr

/-- Why a computation has no result: a fault of the problem, or a trap. -/
inductive Halt where
  | fault (f : Fault)
  | trap (t : Trap)
  deriving DecidableEq, Repr

section Untrapped

variable {α β : Type}

/-- A computation without traps, among those that may trap. -/
def untrapped (x : Except Fault α) : Except Halt α :=
  x.mapError .fault

@[simp]
theorem untrapped_ok (a : α) : untrapped (.ok a) = .ok a :=
  rfl

theorem untrapped_ne_trap (x : Except Fault α) (t : Trap) : untrapped x ≠ .error (.trap t) := by
  cases x <;> exact nofun

theorem untrapped_bind (x : Except Fault α) (f : α → Except Fault β) :
    untrapped (x >>= f) = untrapped x >>= fun a => untrapped (f a) := by
  cases x <;> rfl

end Untrapped

/-! ### Partial operations -/

section Lists

variable {α : Type}

/-- The entry of a list in a place. -/
def entry (l : List α) (i : Nat) : Except Halt α :=
  (l[i]?).elim (.error (.trap .missingEntry)) .ok

/-- The top entry of a stack. -/
def top : List α → Except Halt α
  | [] => .error (.trap .missingEntry)
  | a :: _ => .ok a

/-- The top entry of a stack, and the stack without it. -/
def pop : List α → Except Halt (α × List α)
  | [] => .error (.trap .missingEntry)
  | a :: rest => .ok (a, rest)

/-- The entry of a table under a name. -/
def entryOf {κ : Type} [BEq κ] (table : List (κ × α)) (name : κ) : Except Halt α :=
  (table.lookup name).elim (.error (.trap .missingName)) .ok

/-- A part that only some values have. -/
def part (a : Option α) : Except Halt α :=
  a.elim (.error (.trap .missingPart)) .ok

theorem entry_of_drop_eq {l : List α} {i : Nat} {a : α} {rest : List α} (h : l.drop i = a :: rest) :
    entry l i = .ok a := by
  have hget : l[i]? = some a := by
    rw [← List.head?_drop, h]
    rfl
  rw [entry, hget]
  rfl

theorem entryOf_of_lookup {κ : Type} [BEq κ] {table : List (κ × α)} {name : κ} {a : α}
    (h : table.lookup name = some a) : entryOf table name = .ok a := by
  rw [entryOf, h]
  rfl

end Lists

/-- The number that a text denotes. -/
def numberOf (s : List Char) : Except Halt Double :=
  (readDouble s).elim (.error (.trap .unreadable)) .ok

end DeskCalc
