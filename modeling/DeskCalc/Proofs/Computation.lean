/-!
# Computations that may fail

A computation goes on with the result of its first stage, and one that does not fail has a result after each stage.
-/

namespace DeskCalc

section

variable {ε ε' α β : Type}

theorem ok_bind (a : α) (f : α → Except ε β) : ((.ok a : Except ε α) >>= f) = f a :=
  rfl

/-- Two stages that do not fail take the first one without failing. -/
theorem exists_of_bind_eq_ok {x : Except ε α} {f : α → Except ε β} {b : β} (h : x >>= f = .ok b) :
    ∃ a, x = .ok a ∧ f a = .ok b := by
  cases x with
  | error e => cases h
  | ok a => exact ⟨a, rfl, h⟩

theorem bind_eq_ok_iff {x : Except ε α} {f : α → Except ε β} {b : β} :
    x >>= f = .ok b ↔ ∃ a, x = .ok a ∧ f a = .ok b := by
  refine ⟨exists_of_bind_eq_ok, ?_⟩
  rintro ⟨a, rfl, h⟩
  exact h

theorem exists_of_map_eq_ok {x : Except ε α} {f : α → β} {b : β} (h : x.map f = .ok b) :
    ∃ a, x = .ok a ∧ f a = b := by
  cases x with
  | error e => cases h
  | ok a => exact ⟨a, rfl, Except.ok.inj h⟩

theorem mapError_eq_ok_iff {x : Except ε α} {f : ε → ε'} {a : α} : x.mapError f = .ok a ↔ x = .ok a := by
  cases x with
  | error e => exact iff_of_false nofun nofun
  | ok b => exact ⟨fun h => congrArg Except.ok (Except.ok.inj h), fun h => congrArg Except.ok (Except.ok.inj h)⟩

/-- A run over a first element and the rest that does not fail takes the first step without failing. -/
theorem exists_of_foldlM_cons {f : β → α → Except ε β} {a : α} {as : List α} {b b' : β}
    (h : (a :: as).foldlM f b = .ok b') : ∃ next, f b a = .ok next ∧ as.foldlM f next = .ok b' := by
  rw [List.foldlM_cons] at h
  exact exists_of_bind_eq_ok h

theorem exists_of_foldlM_append {f : β → α → Except ε β} {as cs : List α} {b b' : β}
    (h : (as ++ cs).foldlM f b = .ok b') : ∃ middle, as.foldlM f b = .ok middle ∧ cs.foldlM f middle = .ok b' := by
  induction as generalizing b with
  | nil => exact ⟨b, rfl, h⟩
  | cons a as ih =>
    obtain ⟨next, hstep, hrest⟩ := exists_of_foldlM_cons h
    obtain ⟨middle, hmiddle, hlast⟩ := ih hrest
    refine ⟨middle, ?_, hlast⟩
    rw [List.foldlM_cons, hstep]
    exact hmiddle

end

end DeskCalc
