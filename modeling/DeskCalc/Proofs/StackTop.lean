import DeskCalc.Proofs.Acceptance
import DeskCalc.Proofs.EnclosingGroup

/-!
# The top of the stack

What the tokens read so far tell about the top of the stack: the last of them is kept (`last_of_run`), a function is on
top exactly if it was read last (`head?_stack_of_run`), and nothing waits where an operand is expected exactly if only
plus signs have been read (`stack_eq_nil_iff`).
-/

namespace DeskCalc

private theorem getLast?_cons_or {α : Type} (a : α) (as : List α) (b : Option α) :
    (a :: as).getLast?.or b = as.getLast?.or (some a) := by
  cases as with
  | nil => rfl
  | cons c as =>
    rw [List.getLast?_cons_cons]
    cases h : (c :: as).getLast? with
    | none => simp at h
    | some d => rfl

/-- The rest of well spaced tokens. -/
theorem WellSpaced.append {last : Option Token} {ts us : List Token} (h : WellSpaced last (ts ++ us)) :
    WellSpaced (ts.getLast?.or last) us := by
  induction ts generalizing last with
  | nil => exact h
  | cons t ts ih =>
    rw [getLast?_cons_or]
    exact ih h.2.2

namespace Conversion

variable {s s' : Conversion} {t : Token} {ts : List Token}

/-- The token read last is kept. -/
theorem last_of_run (h : ts.foldlM read s = .ok s') : s'.last = ts.getLast?.or s.last := by
  induction ts generalizing s with
  | nil =>
    cases h
    rfl
  | cons t ts ih =>
    obtain ⟨next, hstep, hrest⟩ := exists_of_foldlM_cons h
    rw [ih hrest, (step_of_read hstep).last_eq, getLast?_cons_or]

/-! ### Functions -/

/-- Every function on the stack waits below its parenthesis, but for one whose parenthesis is still to come. -/
def Calls (s : Conversion) : Prop :=
  ∃ stack groups, s.stack = (calleeAfter s.last).toList.map Pending.function ++ stack ∧ Holds stack groups

theorem Calls.start : Calls start :=
  ⟨[], [], rfl, .nil⟩

theorem Calls.of_holds {groups : List OpenGroup} (h : Holds s.stack groups) (hlast : calleeAfter s.last = none) :
    Calls s :=
  ⟨s.stack, groups, by rw [hlast]; rfl, h⟩

private theorem Calls.exists_holds (h : Calls s) (hlast : calleeAfter s.last = none) :
    ∃ groups, Holds s.stack groups := by
  obtain ⟨stack, groups, hstack, hholds⟩ := h
  rw [hlast] at hstack
  exact ⟨groups, by rwa [hstack]⟩

theorem Calls.step (h : Calls s) (hstep : Step s t s') (hfollows : t.Follows s.last) : Calls s' := by
  by_cases hopening : t = .opening
  · subst hopening
    obtain ⟨stack, groups, hstack, hholds⟩ := h
    cases hstep with
    | operand hvalue => cases hvalue
    | opening =>
      have hgroup := Holds.group (g := ⟨calleeAfter s.last, 1⟩) hholds
      rw [← hstack] at hgroup
      exact .of_holds hgroup rfl
  · obtain ⟨groups, hholds⟩ := h.exists_holds (hfollows.calleeAfter_eq hopening)
    cases hstep with
    | operand hvalue =>
      refine .of_holds hholds ?_
      cases t <;> first | rfl | cases hvalue
    | function f => exact ⟨s.stack, groups, rfl, hholds⟩
    | opening => exact absurd rfl hopening
    | @comma above below n _ hstack habove _ =>
      rw [hstack] at hholds
      obtain ⟨callee, stack, rest, rfl, hrest, rfl⟩ := (hholds.drop habove).group_eq
      exact .of_holds (.group (g := ⟨callee, n + 1⟩) hrest) rfl
    | closeCall _ hstack habove _ =>
      rw [hstack] at hholds
      obtain ⟨rest, rfl, hrest⟩ := (hholds.drop habove).call_eq
      exact .of_holds hrest rfl
    | closeGroup _ hstack habove hbare =>
      rw [hstack] at hholds
      obtain ⟨rest, rfl, hrest⟩ := (hholds.drop habove).bare_eq hbare
      exact .of_holds hrest rfl
    | minus => exact .of_holds (.operator hholds) rfl
    | plus => exact .of_holds hholds rfl
    | @binary op => exact .of_holds (.operator (hholds.dropWhile op)) rfl

theorem Calls.of_run {us : List Token} (h : Calls s) (hspaced : WellSpaced s.last (ts ++ us))
    (hrun : ts.foldlM read s = .ok s') : Calls s' := by
  induction ts generalizing s with
  | nil =>
    cases hrun
    exact h
  | cons t ts ih =>
    obtain ⟨next, hread, hrest⟩ := exists_of_foldlM_cons hrun
    have hstep := step_of_read hread
    refine ih (h.step hstep hspaced.1) ?_ hrest
    rw [hstep.last_eq]
    exact hspaced.2.2

theorem calleeAfter_eq_some_iff {last : Option Token} {f : Function} :
    calleeAfter last = some f ↔ last = some (.function f) := by
  cases last with
  | none => simp [calleeAfter]
  | some u => cases u <;> simp [calleeAfter]

/-- A function is on top of the stack exactly if it was read last. -/
theorem Calls.head?_stack (h : Calls s) (f : Function) :
    s.stack.head? = some (.function f) ↔ s.last = some (.function f) := by
  obtain ⟨stack, groups, hstack, hholds⟩ := h
  rw [← calleeAfter_eq_some_iff, hstack]
  cases hcallee : calleeAfter s.last with
  | some g => simp
  | none =>
    cases stack with
    | nil => simp
    | cons p stack =>
      have hne := hholds.ne_function f stack
      simpa using hne

/-! ### An empty stack -/

private theorem ended_eq_false {last : Option Token} (h : expectsOperand last = true) : ended last = false := by
  cases last with
  | none => rfl
  | some u => cases u <;> first | rfl | exact absurd h Bool.false_ne_true

/-- As long as only plus signs are read, nothing waits. -/
private theorem stack_eq_nil_of_run (hts : ∀ t ∈ ts, t = .operator .add) (hstack : s.stack = [])
    (hlast : expectsOperand s.last = true) (hrun : ts.foldlM read s = .ok s') : s'.stack = [] := by
  induction ts generalizing s with
  | nil =>
    cases hrun
    exact hstack
  | cons t ts ih =>
    obtain ⟨next, hread, hrest⟩ := exists_of_foldlM_cons hrun
    obtain rfl := hts t List.mem_cons_self
    have hnext : next = ⟨s.stack, s.output, some (.operator .add)⟩ := by
      change s.readOperator .add = _ at hread
      simp only [readOperator, if_pos hlast] at hread
      cases hread
      rfl
    refine ih (fun u hu => hts u (List.mem_cons_of_mem _ hu)) ?_ ?_ hrest
    · rw [hnext]
      exact hstack
    · rw [hnext]
      rfl

/-- If nothing waits after the tokens `done`, an operand has just ended or only plus signs have been read. -/
private theorem ended_or_forall_of_run {done : List Token}
    (h : s.stack = [] → ended s.last = true ∨ ∀ t ∈ done, t = .operator .add)
    (hrun : ts.foldlM read s = .ok s') :
    s'.stack = [] → ended s'.last = true ∨ ∀ t ∈ done ++ ts, t = .operator .add := by
  induction ts generalizing s done with
  | nil =>
    cases hrun
    rwa [List.append_nil]
  | cons t ts ih =>
    obtain ⟨next, hread, hrest⟩ := exists_of_foldlM_cons hrun
    rw [List.append_cons]
    refine ih (fun hnil => ?_) hrest
    cases step_of_read hread with
    | operand hvalue => exact .inl (by cases t <;> first | rfl | cases hvalue)
    | function f => cases hnil
    | opening => cases hnil
    | comma => cases hnil
    | closeCall => exact .inl rfl
    | closeGroup => exact .inl rfl
    | minus => cases hnil
    | binary => cases hnil
    | @plus op hprefixed hsymbol =>
      obtain rfl : op = .add := by cases op <;> first | rfl | exact absurd hsymbol (by decide)
      right
      have hall := (h hnil).resolve_left (by rw [ended_eq_false hprefixed]; exact Bool.false_ne_true)
      intro u hu
      rcases List.mem_append.1 hu with hu | hu
      · exact hall u hu
      · exact List.mem_singleton.1 hu

/-- Where an operand is expected, nothing waits exactly if only plus signs have been read. -/
theorem stack_eq_nil_iff (hrun : ts.foldlM read start = .ok s) (hlast : ended s.last = false) :
    s.stack = [] ↔ ∀ t ∈ ts, t = .operator .add := by
  constructor
  · intro hnil
    have hstart : start.stack = [] → ended start.last = true ∨ ∀ t ∈ ([] : List Token), t = .operator .add :=
      fun _ => .inr (by simp)
    have hor := ended_or_forall_of_run hstart hrun hnil
    rw [hlast] at hor
    exact hor.resolve_left Bool.false_ne_true
  · exact fun hall => stack_eq_nil_of_run hall rfl rfl hrun

end Conversion

end DeskCalc
