import DeskCalc.Proofs.DecimalText
import DeskCalc.Proofs.Session
import DeskCalc.Proofs.Trap

/-!
# The edit history

The window keeps its text and its history apart, and every edit, every step through the history and every result
changes both.  In all sessions they agree: the history stands at the text of the window (`History.StandsAt`), and no
text in it is empty.

Three steps look at the last text of the history: undo, redo and a result.  `RawWindow` has them in the form in which
this traps if there is none.  In a session it never does (`Session.consistent_run`).
-/

namespace DeskCalc

/-! ### Numerals -/

private theorem Magnitude.trimmed_ne_nil (a : Magnitude) (places : Nat) : a.trimmed places ≠ [] := by
  obtain ⟨ds, m, -, htrimmed⟩ := a.trimmed_eq places
  rw [htrimmed]
  exact List.append_ne_nil_of_left_ne_nil (a.integral_ne_nil _) _

private theorem radixNumeral_ne_nil (b n : Nat) (a : Magnitude) : radixNumeral b n a ≠ [] := by
  unfold radixNumeral
  dsimp only
  split
  · exact numeral_ne_nil b a.whole
  · exact List.append_ne_nil_of_left_ne_nil (numeral_ne_nil b a.whole) _

/-- No number is written as nothing. -/
private theorem plainNumeral_ne_nil {base fix : Int} {x : Double} {numeral : List Char}
    (h : plainNumeral base fix x = .ok numeral) : numeral ≠ [] := by
  unfold plainNumeral at h
  split at h
  · cases h
  · cases x with
    | nan =>
      cases h
      exact List.cons_ne_nil _ _
    | infinite s =>
      cases h
      cases s <;> exact List.cons_ne_nil _ _
    | finite s a =>
      dsimp only at h
      split at h
      · split at h
        · cases h
          exact List.append_ne_nil_of_right_ne_nil _ (a.trimmed_ne_nil _)
        · cases h
      · cases h
        exact List.append_ne_nil_of_right_ne_nil _ (radixNumeral_ne_nil _ _ a)

/-! ### Histories -/

namespace History

variable {h g : History} {text t : List Char}

/-- The text is the last one of the history, and no text of the history is empty. -/
structure StandsAt (h : History) (text : List Char) : Prop where
  head?_undo : h.undo.head? = some text
  ne_nil_of_mem_undo : ∀ t ∈ h.undo, t ≠ []
  ne_nil_of_mem_redo : ∀ t ∈ h.redo, t ≠ []

namespace StandsAt

theorem exists_undo (hat : h.StandsAt text) : ∃ earlier, h.undo = text :: earlier := by
  obtain ⟨earlier, hundo⟩ := List.head?_eq_some_iff.1 hat.head?_undo
  exact ⟨earlier, hundo⟩

theorem ne_nil (hat : h.StandsAt text) : text ≠ [] :=
  hat.ne_nil_of_mem_undo text (List.mem_of_head? hat.head?_undo)

theorem start (text_ne : text ≠ []) : (start text).StandsAt text :=
  ⟨rfl, List.forall_mem_singleton.2 text_ne, nofun⟩

theorem record (hat : h.StandsAt text) (t_ne : t ≠ []) : (h.record t).StandsAt t :=
  ⟨rfl, List.forall_mem_cons.2 ⟨t_ne, hat.ne_nil_of_mem_undo⟩, nofun⟩

theorem back (hat : h.StandsAt text) (e : h.back? = some (t, g)) : g.StandsAt t := by
  obtain ⟨last, earlier, hundo, rfl⟩ := exists_of_back? e
  have hne := hat.ne_nil_of_mem_undo
  rw [hundo, List.forall_mem_cons] at hne
  exact ⟨rfl, hne.2, List.forall_mem_cons.2 ⟨hne.1, hat.ne_nil_of_mem_redo⟩⟩

theorem forward (hat : h.StandsAt text) (e : h.forward? = some (t, g)) : g.StandsAt t := by
  obtain ⟨later, hredo, rfl⟩ := exists_of_forward? e
  have hne := hat.ne_nil_of_mem_redo
  rw [hredo, List.forall_mem_cons] at hne
  exact ⟨rfl, List.forall_mem_cons.2 ⟨hne.1, hat.ne_nil_of_mem_undo⟩, hne.2⟩

end StandsAt

end History

/-! ### The window -/

namespace Window

variable {w w' : Window}

/-- The history of the window stands at its text. -/
def Consistent (w : Window) : Prop :=
  w.history.StandsAt w.text

namespace Consistent

theorem start (c : Settings) (previous : Option Double) : (start c previous).Consistent :=
  History.StandsAt.start (List.cons_ne_nil _ _)

theorem undo (h : w.Consistent) : w.undo.Consistent := by
  unfold Window.undo
  cases hback : w.history.back? with
  | none => exact h
  | some place => exact History.StandsAt.back h hback

theorem redo (h : w.Consistent) : w.redo.Consistent := by
  unfold Window.redo
  cases hforward : w.history.forward? with
  | none => exact h
  | some place => exact History.StandsAt.forward h hforward

theorem touch (h : w.Consistent) (htouch : w.Touch w') : w'.Consistent := by
  cases htouch with
  | edit text text_ne => exact History.StandsAt.record h text_ne
  | adjust => exact h

theorem showResult (h : w.Consistent) {numeral : List Char} (hne : numeral ≠ []) :
    (w.showResult numeral).Consistent := by
  by_cases hsame : w.history.undo.head? = some numeral
  · -- the numeral is the text already, and is not recorded again
    have htext : w.text = numeral := Option.some.inj (h.head?_undo.symm.trans hsame)
    have hshown : w.showResult numeral = { w with text := numeral, display := numeral } := by
      rw [Window.showResult, if_pos hsame]
    rw [hshown, ← htext]
    exact h
  · have hshown : w.showResult numeral =
        { w with text := numeral, display := numeral, history := w.history.record numeral } := by
      rw [Window.showResult, if_neg hsame]
    rw [hshown]
    exact History.StandsAt.record h hne

theorem taken [Host] (h : w.Consistent) {problem : List Char} {outcome : Except Fault Double}
    (htaken : w.Taken problem outcome w') : w'.Consistent := by
  cases htaken with
  | result x numeral written =>
    have hreceived : (w.receive x).Consistent := h
    exact hreceived.showResult (plainNumeral_ne_nil written)
  | dropped | returned | usage | fault => exact h

end Consistent

end Window

/-! ### Steps that look at the last text -/

namespace RawWindow

variable (w : Window)

/-- Undo, by a look at the last text that is left. -/
def undo : Except Halt Window :=
  if 1 < w.history.undo.length then do
    let (last, earlier) ← pop w.history.undo
    let text ← top earlier
    return { w with text := text, display := text, history := ⟨earlier, last :: w.history.redo⟩, received := false }
  else .ok w.refresh

/-- Redo, by a look at the text that has been put back. -/
def redo : Except Halt Window :=
  if w.history.redo = [] then .ok w.refresh
  else do
    let (next, later) ← pop w.history.redo
    let text ← top (next :: w.history.undo)
    return { w with text := text, display := text, history := ⟨next :: w.history.undo, later⟩, received := false }

/-- Shows the numeral of a result, after a look at the last text. -/
def showResult (numeral : List Char) : Except Halt Window := do
  let last ← top w.history.undo
  return { w with
    text := numeral
    display := numeral
    history := if last = numeral then w.history else w.history.record numeral }

private theorem undo_eq : undo w = .ok w.undo := by
  unfold undo Window.undo
  obtain ⟨settings, previous, text, display, ⟨undo, redo⟩, received, active, shiftHeld, pastes⟩ := w
  match undo with
  | [] => rfl
  | [_] => rfl
  | _ :: _ :: _ => rfl

private theorem redo_eq : redo w = .ok w.redo := by
  unfold redo Window.redo
  obtain ⟨settings, previous, text, display, ⟨undo, redo⟩, received, active, shiftHeld, pastes⟩ := w
  cases redo <;> rfl

private theorem showResult_eq {w : Window} (h : w.Consistent) (numeral : List Char) :
    showResult w numeral = .ok (w.showResult numeral) := by
  obtain ⟨earlier, hundo⟩ := h.exists_undo
  unfold showResult Window.showResult
  rw [hundo]
  show Except.ok _ = _
  simp only [List.head?_cons, Option.some.injEq]

end RawWindow

/-! ### Sessions -/

namespace Session

variable [Host] {fn : Elementary} {s : Session}

private theorem consistent_react (h : s.desktop.window.Consistent) (e : Event) :
    (s.react fn e).desktop.window.Consistent := by
  cases step_react fn s e with
  | undo _ hw _ =>
    rw [hw]
    exact h.undo
  | redo _ hw _ =>
    rw [hw]
    exact h.redo
  | touch _ htouch _ => exact h.touch htouch
  | start _ _ w htouch hw _ =>
    have htouched : w.Consistent := h.touch htouch
    rw [hw]
    exact htouched
  | deliver _ _ _ _ htaken _ => exact h.taken htaken

theorem consistent_of_opening (fn : Elementary) (c : Settings) (overrides : List (Text × Json)) (store : Store)
    (log : List LogEntry) (es : List Event) :
    ((opening c overrides store log).run fn es).desktop.window.Consistent :=
  run_invariant (fun s => s.desktop.window.Consistent) (fun _ e h => consistent_react h e) (.start c _) es

/-- However the events of a session are mixed, the history stands at the text of the window, and looking at its last
text never traps. -/
theorem consistent_run (fn : Elementary) (c : Settings) (overrides : List (Text × Json)) (store : Store)
    (log : List LogEntry) (es : List Event) :
    let w := ((opening c overrides store log).run fn es).desktop.window
    (w.history.StandsAt w.text ∧ w.text ≠ []) ∧
      RawWindow.undo w = .ok w.undo ∧ RawWindow.redo w = .ok w.redo ∧
      ∀ x numeral, RawWindow.showResult (w.receive x) numeral = .ok ((w.receive x).showResult numeral) := by
  intro w
  have h : w.Consistent := consistent_of_opening fn c overrides store log es
  refine ⟨⟨h, h.ne_nil⟩, RawWindow.undo_eq w, RawWindow.redo_eq w, ?_⟩
  intro x numeral
  have hreceived : (w.receive x).Consistent := h
  exact RawWindow.showResult_eq hreceived numeral

end Session

end DeskCalc
