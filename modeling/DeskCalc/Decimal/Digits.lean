/-!
# Positional numerals of natural numbers

`digits b n` lists the digits of `n` in base `b`, most significant first, without a leading zero unless `n` is
zero.  Digits from ten on are written with the letters from `a`.
-/

namespace DeskCalc

/-- The digits of `n` in base `b` put before `tail`; a base below two yields `n` itself as the only digit. -/
def digitsOnto (b n : Nat) (tail : List Nat) : List Nat :=
  if b < 2 ∨ n < b then n :: tail else digitsOnto b (n / b) (n % b :: tail)
termination_by n
decreasing_by
  exact Nat.div_lt_self (by omega) (by omega)

/-- The digits of `n` in base `b`, most significant first. -/
def digits (b n : Nat) : List Nat :=
  digitsOnto b n []

/-- The sign for a digit below 36. -/
def digitChar (d : Nat) : Char :=
  if d < 10 then Char.ofNat (48 + d) else Char.ofNat (87 + d)

/-- The numeral of `n` in base `b`. -/
def numeral (b n : Nat) : List Char :=
  (digits b n).map digitChar

/-- The longest decimal numeral of an integer that is read or shown. -/
def maxDigits : Nat :=
  4300

/-- The number that a list of digits denotes in base `b`. -/
def digitsVal (b : Nat) (ds : List Nat) : Nat :=
  ds.foldl (fun v d => v * b + d) 0

theorem digitsVal_append (b : Nat) (ds : List Nat) (d : Nat) :
    digitsVal b (ds ++ [d]) = digitsVal b ds * b + d := by
  simp [digitsVal]

theorem digitsOnto_eq_append (b n : Nat) (tail : List Nat) :
    digitsOnto b n tail = digits b n ++ tail := by
  suffices h : ∀ n tail, digitsOnto b n tail = digitsOnto b n [] ++ tail from h n tail
  intro n
  induction n using Nat.strongRecOn with
  | ind n ih =>
    intro tail
    rw [digitsOnto.eq_def b n tail, digitsOnto.eq_def b n []]
    split
    · rfl
    · have hlt : n / b < n := Nat.div_lt_self (by omega) (by omega)
      rw [ih _ hlt (n % b :: tail), ih _ hlt [n % b], List.append_assoc]
      rfl

theorem digits_of_lt {b n : Nat} (h : n < b) : digits b n = [n] := by
  rw [digits, digitsOnto, if_pos (Or.inr h)]

theorem digits_of_le {b n : Nat} (hb : 2 ≤ b) (h : b ≤ n) : digits b n = digits b (n / b) ++ [n % b] := by
  rw [digits, digitsOnto, if_neg (by omega), digitsOnto_eq_append]

theorem digits_ne_nil (b n : Nat) : digits b n ≠ [] := by
  rw [digits, digitsOnto]
  split
  · exact List.cons_ne_nil n []
  · rw [digitsOnto_eq_append]
    exact List.append_ne_nil_of_right_ne_nil _ (List.cons_ne_nil _ [])

theorem numeral_ne_nil (b n : Nat) : numeral b n ≠ [] := by
  rw [numeral, Ne, List.map_eq_nil_iff]
  exact digits_ne_nil b n

end DeskCalc
