import DeskCalc.Proofs.Balance

/-!
# The group around a token

`EnclosedIn` finds the innermost parenthesis that is still open after some tokens, from the tokens alone; `commasAt`
counts the commas that stand directly in it.  The stack of the conversion tells the same: the parenthesis waits with
one argument more than it has direct commas, directly on top of what waited when it was opened (`Step.frame`,
`exists_stack_of_enclosedIn`).  The same is true of the parentheses around it (`exists_stack_of_balance`).  This holds
of all tokens that can be read, in whatever order.
-/

namespace DeskCalc

/-- The innermost parenthesis that the tokens leave open comes after `before`; `inside` comes after it and closes what
it opens. -/
structure EnclosedIn (ts before inside : List Token) : Prop where
  eq_append : ts = before ++ .opening :: inside
  balance : Balance 0 inside 0

/-- The number of commas directly in a group, in which `depth` further parentheses are open before the tokens. -/
def commasAt : Nat → List Token → Nat
  | _, [] => 0
  | depth, .opening :: ts => commasAt (depth + 1) ts
  | depth, .closing :: ts => commasAt (depth - 1) ts
  | depth, .comma :: ts => commasAt depth ts + if depth = 0 then 1 else 0
  | depth, _ :: ts => commasAt depth ts

private theorem commasAt_cons {depth middle : Nat} {t : Token} {ts : List Token}
    (h : middle + [t].count .closing = depth + [t].count .opening) :
    commasAt depth (t :: ts) = commasAt middle ts + if t = .comma ∧ depth = 0 then 1 else 0 := by
  cases t with
  | opening =>
    obtain rfl : middle = depth + 1 := h
    simp [commasAt]
  | closing =>
    obtain rfl : middle + 1 = depth := h
    simp [commasAt]
  | comma =>
    obtain rfl : middle = depth := h
    simp [commasAt]
  | _ =>
    obtain rfl : middle = depth := h
    simp [commasAt]

/-- One more parenthesis may be open all the time. -/
theorem Balance.succ {before after : Nat} {ts : List Token} (h : Balance before ts after) :
    Balance (before + 1) ts (after + 1) := by
  refine ⟨fun us hus => ?_, ?_⟩
  · have hle := h.closing_le us hus
    omega
  · have heq := h.count_eq
    omega

/-- Some parenthesis is left open with `depth` others in it, or no more than `depth` are left open, after some perhaps
that were open before have been closed. -/
private theorem exists_opening_or_balance (depth : Nat) (ts : List Token) :
    (∃ before inside, ts = before ++ .opening :: inside ∧ Balance 0 inside depth) ∨
      ∃ n m, m ≤ depth ∧ Balance n ts m := by
  induction ts with
  | nil => exact .inr ⟨0, 0, Nat.zero_le depth, .nil 0⟩
  | cons t ts ih =>
    rcases ih with ⟨before, inside, rfl, hinside⟩ | ⟨n, m, hm, hn⟩
    · exact .inl ⟨t :: before, inside, rfl, hinside⟩
    by_cases hopening : t = .opening
    · subst hopening
      cases n with
      | succ n => exact .inr ⟨n, m, hm, hn.cons rfl⟩
      | zero =>
        rcases Nat.eq_or_lt_of_le hm with rfl | hlt
        · exact .inl ⟨[], ts, rfl, hn⟩
        · exact .inr ⟨0, m + 1, hlt, hn.succ.cons rfl⟩
    by_cases hclosing : t = .closing
    · subst hclosing
      exact .inr ⟨n + 1, m, hm, hn.cons rfl⟩
    · exact .inr ⟨n, m, hm, hn.cons_of_ne hopening hclosing⟩

namespace Conversion

variable {s s' : Conversion} {t : Token} {ts : List Token} {above base : List Pending} {n : Nat}

/-- The topmost parenthesis of a stack stands at one place only. -/
theorem group_unique {above' base' : List Pending} {n' : Nat} (habove : ∀ p ∈ above, p.token?.isSome)
    (habove' : ∀ p ∈ above', p.token?.isSome) (h : above ++ .group n :: base = above' ++ .group n' :: base') :
    n = n' ∧ base = base' := by
  have hunwind := unwind_append habove n base []
  rw [h, unwind_append habove' n' base' [], Option.some.injEq, Prod.mk.injEq, Prod.mk.injEq] at hunwind
  exact ⟨hunwind.1.symm, hunwind.2.1.symm⟩

/-- Of two parentheses on a stack the one that nothing but operators stands above is the upper one. -/
private theorem append_group_eq {above' base' : List Pending} {n' : Nat} (habove' : ∀ p ∈ above', p.token?.isSome)
    (h : above ++ .group n :: base = above' ++ .group n' :: base') :
    (openCount above = 0 ∧ n = n' ∧ base = base') ∨
      ∃ rest, above = above' ++ .group n' :: rest ∧ base' = rest ++ .group n :: base := by
  rcases List.append_eq_append_iff.1 h with ⟨rest, rfl, hrest⟩ | ⟨rest, rfl, hrest⟩
  · cases rest with
    | nil =>
      rw [List.append_nil] at habove'
      cases hrest
      exact .inl ⟨openCount_eq_zero_iff.2 habove', rfl, rfl⟩
    | cons p rest =>
      cases hrest
      exact absurd (habove' (.group n) (by simp)) Bool.false_ne_true
  · cases rest with
    | nil =>
      cases hrest
      rw [List.append_nil]
      exact .inl ⟨openCount_eq_zero_iff.2 habove', rfl, rfl⟩
    | cons p rest =>
      cases hrest
      exact .inr ⟨rest, rfl, rfl⟩

private theorem dropWhile_append_group (op : Operator) (above base : List Pending) (n : Nat) :
    (above ++ .group n :: base).dropWhile (yieldsTo op) = above.dropWhile (yieldsTo op) ++ .group n :: base := by
  induction above with
  | nil => rfl
  | cons p above ih =>
    rw [List.cons_append, List.dropWhile_cons, List.dropWhile_cons]
    split
    · exact ih
    · rfl

/-- A token that does not close the group leaves what waits below its parenthesis, and adds an argument to the group
if it is a comma directly in it. -/
theorem Step.frame {middle : Nat} (h : Step s t s') (hs : s.stack = above ++ .group n :: base)
    (ht : middle + [t].count .closing = openCount above + [t].count .opening) :
    ∃ above', s'.stack =
        above' ++ .group (n + if t = .comma ∧ openCount above = 0 then 1 else 0) :: base ∧
      openCount above' = middle := by
  cases h with
  | operand hvalue =>
    refine ⟨above, ?_, ?_⟩
    · cases t <;> first | exact hs | cases hvalue
    · cases t <;> first | exact ht.symm | cases hvalue
  | function f => exact ⟨.function f :: above, by simp [hs], ht.symm⟩
  | opening => exact ⟨.group 1 :: above, by simp [hs], by simpa using ht.symm⟩
  | @comma above' below m _ hstack hall _ =>
    obtain rfl : middle = openCount above := ht
    rcases append_group_eq hall (hs.symm.trans hstack) with ⟨hzero, rfl, rfl⟩ | ⟨rest, rfl, rfl⟩
    · exact ⟨[], by simp [hzero], hzero.symm⟩
    · refine ⟨.group (m + 1) :: rest, ?_, ?_⟩
      · simp [openCount_append]
      · simp [openCount_append, openCount_eq_zero_iff.2 hall]
  | @closeCall above' below m f _ hstack hall _ =>
    rcases append_group_eq hall (hs.symm.trans hstack) with ⟨hzero, -, -⟩ | ⟨rest, rfl, hrest⟩
    · rw [hzero] at ht
      cases ht
    · cases rest with
      | nil => cases hrest
      | cons p rest =>
        cases hrest
        refine ⟨rest, by simp, ?_⟩
        simp [openCount_append, openCount_eq_zero_iff.2 hall] at ht
        exact ht.symm
  | @closeGroup above' below m _ hstack hall _ =>
    rcases append_group_eq hall (hs.symm.trans hstack) with ⟨hzero, -, -⟩ | ⟨rest, rfl, rfl⟩
    · rw [hzero] at ht
      cases ht
    · refine ⟨rest, by simp, ?_⟩
      simp [openCount_append, openCount_eq_zero_iff.2 hall] at ht
      exact ht.symm
  | minus => exact ⟨.operator .negate :: above, by simp [hs], ht.symm⟩
  | plus => exact ⟨above, by simp [hs], ht.symm⟩
  | @binary op =>
    refine ⟨.operator op :: above.dropWhile (yieldsTo op), ?_, ?_⟩
    · simp [hs, dropWhile_append_group]
    · simpa [openCount_dropWhile] using ht.symm

/-- Tokens that do not close the group leave what waits below its parenthesis and count the commas directly in it. -/
private theorem frame_of_run {after : Nat} (h : ts.foldlM read s = .ok s') (hs : s.stack = above ++ .group n :: base)
    (hbalance : Balance (openCount above) ts after) :
    ∃ above', s'.stack = above' ++ .group (n + commasAt (openCount above) ts) :: base ∧
      openCount above' = after := by
  induction ts generalizing s above n with
  | nil =>
    cases h
    exact ⟨above, hs, hbalance.count_eq.symm⟩
  | cons t ts ih =>
    obtain ⟨next, hstep, hrest⟩ := exists_of_foldlM_cons h
    obtain ⟨middle, hmiddle, htail⟩ := hbalance.tail
    obtain ⟨above₁, hstack₁, hopen₁⟩ := (step_of_read hstep).frame hs hmiddle
    rw [← hopen₁] at hmiddle htail
    obtain ⟨above₂, hstack₂, hopen₂⟩ := ih hrest hstack₁ htail
    refine ⟨above₂, ?_, hopen₂⟩
    rw [hstack₂, commasAt_cons hmiddle]
    congr 3
    omega

/-- An open parenthesis waits with one argument more than it has direct commas, on top of what waited when it was
opened, and below the parentheses that are open in it. -/
theorem exists_stack_of_balance {before inside : List Token} {depth : Nat} (hbalance : Balance 0 inside depth)
    (hrun : (before ++ .opening :: inside).foldlM read start = .ok s) :
    ∃ outer above, before.foldlM read start = .ok outer ∧
      s.stack = above ++ .group (commasAt 0 inside + 1) :: outer.stack ∧ openCount above = depth := by
  obtain ⟨outer, houter, hrest⟩ := exists_of_foldlM_append hrun
  obtain ⟨next, hopening, hinside⟩ := exists_of_foldlM_cons hrest
  have hnext : next.stack = [] ++ .group 1 :: outer.stack := by
    cases hopening
    rfl
  obtain ⟨above, hstack, hopen⟩ := frame_of_run hinside hnext hbalance
  refine ⟨outer, above, houter, ?_, hopen⟩
  rw [hstack, Nat.add_comm]
  rfl

/-- The innermost open parenthesis waits below operators and functions only. -/
theorem exists_stack_of_enclosedIn {before inside : List Token} (h : EnclosedIn ts before inside)
    (hrun : ts.foldlM read start = .ok s) :
    ∃ outer above, before.foldlM read start = .ok outer ∧
      s.stack = above ++ .group (commasAt 0 inside + 1) :: outer.stack ∧ ∀ p ∈ above, p.token?.isSome := by
  obtain ⟨rfl, hbalance⟩ := h
  obtain ⟨outer, above, houter, hstack, hopen⟩ := exists_stack_of_balance hbalance hrun
  exact ⟨outer, above, houter, hstack, openCount_eq_zero_iff.1 hopen⟩

/-- If more than `depth` parentheses are open on the stack, the tokens leave one open with `depth` others in it. -/
theorem exists_opening_of_lt {depth : Nat} (hrun : ts.foldlM read start = .ok s) (hlt : depth < openCount s.stack) :
    ∃ before inside, ts = before ++ .opening :: inside ∧ Balance 0 inside depth := by
  refine (exists_opening_or_balance depth ts).resolve_right ?_
  rintro ⟨n, m, hm, hbalance⟩
  have hcount := openCount_of_run hrun
  have heq := hbalance.count_eq
  have hstart : openCount start.stack = 0 := rfl
  omega

/-- No parenthesis is open on the stack exactly if the tokens leave none open. -/
theorem forall_isSome_iff (hrun : ts.foldlM read start = .ok s) :
    (∀ p ∈ s.stack, p.token?.isSome) ↔ ¬ ∃ before inside, EnclosedIn ts before inside := by
  constructor
  · rintro hall ⟨before, inside, h⟩
    obtain ⟨outer, above, -, hstack, -⟩ := exists_stack_of_enclosedIn h hrun
    exact absurd (hall (.group (commasAt 0 inside + 1)) (by simp [hstack])) Bool.false_ne_true
  · intro hnone
    by_contra hopen
    have hlt := Nat.pos_of_ne_zero (mt openCount_eq_zero_iff.1 hopen)
    obtain ⟨before, inside, heq, hbalance⟩ := exists_opening_of_lt hrun hlt
    exact hnone ⟨before, inside, heq, hbalance⟩

end Conversion

end DeskCalc
