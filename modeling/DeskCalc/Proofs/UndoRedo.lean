import DeskCalc.Proofs.EditHistory

/-!
# Undo and redo

Presses on the undo and the redo button go back and forth through the history (`Travel`).  They lose nothing: the texts
in the order of their times stay the same.  As many steps forth as there were steps back end where they began, and the
other way round, as long as the history has room for them (`travel_opposite`).

Every other event that changes the text records the new text on top of the old one, whether it is typed, pasted or the
numeral of a result (`Session.recorded_react`).  So one step back leads to the old text.
-/

namespace DeskCalc

/-- A text with the history that stands at it. -/
abbrev Place :=
  List Char × History

namespace Place

variable {p : Place}

/-- One step back, if there is an earlier text. -/
def back (p : Place) : Place :=
  p.2.back?.getD p

/-- One step forth, if a text has been taken back. -/
def forth (p : Place) : Place :=
  p.2.forward?.getD p

private theorem timeline_back (p : Place) : p.back.2.timeline = p.2.timeline := by
  unfold back
  cases h : p.2.back? with
  | none => rfl
  | some place => exact History.timeline_of_back? h

private theorem timeline_forth (p : Place) : p.forth.2.timeline = p.2.timeline := by
  unfold forth
  cases h : p.2.forward? with
  | none => rfl
  | some place => exact History.timeline_of_forward? h

private theorem back_of_undo {text t : List Char} {earlier redo : List (List Char)} :
    back (text, ⟨text :: t :: earlier, redo⟩) = (t, ⟨t :: earlier, text :: redo⟩) :=
  rfl

private theorem forth_of_redo {text t : List Char} {undo later : List (List Char)} :
    forth (text, ⟨undo, t :: later⟩) = (t, ⟨t :: undo, later⟩) :=
  rfl

end Place

/-! ### Travelling -/

/-- A step through the history. -/
inductive Travel where
  | back
  | forth
  deriving DecidableEq, Repr

namespace Travel

variable {t : Travel} {p : Place}

def move : Travel → Place → Place
  | back => Place.back
  | forth => Place.forth

def opposite : Travel → Travel
  | back => forth
  | forth => back

/-- How many steps can be made. -/
def room : Travel → History → Nat
  | back, h => h.undo.length - 1
  | forth, h => h.redo.length

/-- The button for the step. -/
def label : Travel → List Char
  | back => Label.undo
  | forth => Label.redo

private theorem label_ne_nil (t : Travel) : t.label ≠ [] := by
  cases t <;> exact List.cons_ne_nil _ _

/-- A press on the button. -/
def press (t : Travel) : Event :=
  .press t.label t.label_ne_nil

private theorem timeline_move (t : Travel) (p : Place) : (t.move p).2.timeline = p.2.timeline := by
  cases t with
  | back => exact p.timeline_back
  | forth => exact p.timeline_forth

/-- A step can be taken back, and it uses up one step of the room. -/
private theorem move_opposite (hat : p.2.StandsAt p.1) (hroom : 0 < t.room p.2) :
    t.opposite.move (t.move p) = p ∧ (t.move p).2.StandsAt (t.move p).1 ∧ t.room (t.move p).2 + 1 = t.room p.2 := by
  obtain ⟨text, undo, redo⟩ := p
  obtain ⟨earlier, hundo⟩ := hat.exists_undo
  obtain rfl : undo = text :: earlier := hundo
  cases t with
  | back =>
    cases earlier with
    | nil => cases hroom
    | cons last earlier => exact ⟨rfl, hat.back rfl, rfl⟩
  | forth =>
    cases redo with
    | nil => cases hroom
    | cons next later => exact ⟨rfl, hat.forward rfl, rfl⟩

end Travel

/-- Several steps through the history. -/
def travel (ts : List Travel) (p : Place) : Place :=
  ts.foldl (fun p t => t.move p) p

private theorem timeline_travel (ts : List Travel) (p : Place) : (travel ts p).2.timeline = p.2.timeline := by
  induction ts generalizing p with
  | nil => rfl
  | cons t ts ih => exact (ih (t.move p)).trans (t.timeline_move p)

/-- Some steps and as many steps in the opposite direction end where they began. -/
theorem travel_opposite {t : Travel} {p : Place} (hat : p.2.StandsAt p.1) {k : Nat} (hk : k ≤ t.room p.2) :
    travel (List.replicate k t ++ List.replicate k t.opposite) p = p := by
  induction k generalizing p with
  | zero => rfl
  | succ k ih =>
    obtain ⟨hreturn, hat', hroom⟩ := Travel.move_opposite hat (Nat.lt_of_lt_of_le k.succ_pos hk)
    -- the first and the last step enclose a journey that is shorter by one step each way
    have hinner := ih hat' (show k ≤ t.room (t.move p).2 by omega)
    have hsplit : List.replicate (k + 1) t ++ List.replicate (k + 1) t.opposite =
        t :: ((List.replicate k t ++ List.replicate k t.opposite) ++ [t.opposite]) := by
      rw [List.replicate_succ, List.replicate_succ', List.cons_append, List.append_assoc]
    calc travel (List.replicate (k + 1) t ++ List.replicate (k + 1) t.opposite) p
      _ = t.opposite.move (travel (List.replicate k t ++ List.replicate k t.opposite) (t.move p)) := by
        rw [hsplit, travel, List.foldl_cons, List.foldl_append]
        rfl
      _ = p := by rw [hinner, hreturn]

/-! ### The window -/

namespace Window

variable {w w' : Window}

/-- Where the window stands in its history. -/
def place (w : Window) : Place :=
  (w.text, w.history)

private theorem place_moveTo (w : Window) (p : Option Place) : (w.moveTo p).place = p.getD w.place := by
  cases p <;> rfl

private theorem place_undo (w : Window) : w.undo.place = w.place.back :=
  w.place_moveTo w.history.back?

private theorem place_redo (w : Window) : w.redo.place = w.place.forth :=
  w.place_moveTo w.history.forward?

/-- If the text is another one afterwards, it is recorded on top of the history. -/
def Records (w w' : Window) : Prop :=
  w'.text ≠ w.text → w'.history = w.history.record w'.text

theorem Touch.records (h : w.Touch w') : w.Records w' := by
  cases h with
  | edit => exact fun _ => rfl
  | adjust => exact fun hne => absurd rfl hne

theorem Taken.records [Host] (hat : w.Consistent) {problem : List Char} {outcome : Except Fault Double}
    (h : w.Taken problem outcome w') : w.Records w' := by
  cases h with
  | result x numeral written =>
    intro hne
    have hnew : (w.receive x).history.undo.head? ≠ some numeral := by
      intro hhead
      exact hne (Option.some.inj (hhead.symm.trans hat.head?_undo))
    show (if (w.receive x).history.undo.head? = some numeral then _ else _) = _
    rw [if_neg hnew]
    rfl
  | dropped | returned | usage | fault => exact fun hne => absurd rfl hne

end Window

/-! ### Sessions -/

namespace Session

variable [Host] {fn : Elementary} {s : Session}

/-- Where the window stands in its history. -/
def place (s : Session) : Place :=
  s.desktop.window.place

private theorem place_react_press (s : Session) (t : Travel) : (s.react fn t.press).place = t.move s.place := by
  cases t with
  | back => exact s.desktop.window.place_undo
  | forth => exact s.desktop.window.place_redo

private theorem place_run_press (s : Session) (ts : List Travel) :
    (s.run fn (ts.map Travel.press)).place = travel ts s.place := by
  induction ts generalizing s with
  | nil => rfl
  | cons t ts ih =>
    show ((s.react fn t.press).run fn (ts.map Travel.press)).place = travel ts (t.move s.place)
    rw [ih, place_react_press]

theorem recorded_react (hat : s.desktop.window.Consistent) {e : Event} (hundo : e.label? ≠ some Label.undo)
    (hredo : e.label? ≠ some Label.redo) : s.desktop.window.Records (s.react fn e).desktop.window := by
  cases step_react fn s e with
  | undo hlabel _ _ => exact absurd hlabel hundo
  | redo hlabel _ _ => exact absurd hlabel hredo
  | touch _ htouch _ => exact htouch.records
  | start _ _ w htouch hw _ =>
    rw [hw]
    exact htouch.records
  | deliver _ _ _ _ htaken _ => exact htaken.records hat

/-- Steps through the history lose nothing and can be taken back, and so can every other change of the text. -/
structure Reversible (fn : Elementary) (s : Session) : Prop where
  /-- No press on undo or redo changes the texts in the order of their times. -/
  timeline_eq : ∀ ts : List Travel,
    (s.run fn (ts.map Travel.press)).place.2.timeline = s.place.2.timeline
  /-- Redo brings back what undo has taken back. -/
  forth_back : ∀ k < s.place.2.undo.length,
    (s.run fn (List.replicate k Travel.back.press ++ List.replicate k Travel.forth.press)).place = s.place
  /-- Undo takes back what redo has brought back. -/
  back_forth : ∀ k ≤ s.place.2.redo.length,
    (s.run fn (List.replicate k Travel.forth.press ++ List.replicate k Travel.back.press)).place = s.place
  /-- After any other event that changes the text, undo gives the old text and redo the new one. -/
  of_text_ne : ∀ e : Event, e.label? ≠ some Label.undo → e.label? ≠ some Label.redo →
    (s.react fn e).place.1 ≠ s.place.1 →
    (s.run fn [e, Travel.back.press]).place.1 = s.place.1 ∧
      (s.run fn [e, Travel.back.press, Travel.forth.press]).place = (s.react fn e).place

private theorem run_opposite (hat : s.desktop.window.Consistent) {t : Travel} {k : Nat} (hk : k ≤ t.room s.place.2) :
    (s.run fn (List.replicate k t.press ++ List.replicate k t.opposite.press)).place = s.place := by
  have hmap : List.replicate k t.press ++ List.replicate k t.opposite.press =
      (List.replicate k t ++ List.replicate k t.opposite).map Travel.press := by
    rw [List.map_append, List.map_replicate, List.map_replicate]
  rw [hmap, place_run_press]
  exact travel_opposite (p := s.place) hat hk

/-- A text that was recorded on top of another one is taken back, and brought back again. -/
private theorem place_run_of_records (hat : s.desktop.window.Consistent) {e : Event}
    (hrecords : s.desktop.window.Records (s.react fn e).desktop.window) (hne : (s.react fn e).place.1 ≠ s.place.1) :
    (s.run fn [e, Travel.back.press]).place.1 = s.place.1 ∧
      (s.run fn [e, Travel.back.press, Travel.forth.press]).place = (s.react fn e).place := by
  obtain ⟨earlier, hundo⟩ := hat.exists_undo
  -- the new text lies on the old one, and nothing is left to be brought back
  have hhistory : (s.react fn e).place.2 = ⟨(s.react fn e).place.1 :: s.place.1 :: earlier, []⟩ := by
    refine (hrecords hne).trans ?_
    rw [History.record, hundo]
    rfl
  have hplace : (s.react fn e).place = ((s.react fn e).place.1, ⟨(s.react fn e).place.1 :: s.place.1 :: earlier, []⟩) :=
    Prod.ext rfl hhistory
  have hback : (s.run fn [e, Travel.back.press]).place =
      (s.place.1, ⟨s.place.1 :: earlier, [(s.react fn e).place.1]⟩) := by
    show ((s.react fn e).react fn Travel.back.press).place = _
    rw [place_react_press, hplace]
    exact Place.back_of_undo
  refine ⟨by rw [hback], ?_⟩
  have hforth : (s.run fn [e, Travel.back.press, Travel.forth.press]).place =
      (s.run fn [e, Travel.back.press]).place.forth := place_react_press (s.run fn [e, Travel.back.press]) .forth
  rw [hforth, hback, Place.forth_of_redo]
  exact hplace.symm

/-- In every session undo and redo are inverse and lose nothing. -/
theorem reversible_run (fn : Elementary) (c : Settings) (overrides : List (Text × Json)) (store : Store)
    (log : List LogEntry) (es : List Event) : Reversible fn ((opening c overrides store log).run fn es) := by
  have hat := consistent_of_opening fn c overrides store log es
  generalize (opening c overrides store log).run fn es = s at hat
  exact {
    timeline_eq := by
      intro ts
      rw [place_run_press]
      exact timeline_travel ts s.place
    forth_back := by
      intro k hk
      exact run_opposite (t := .back) hat (Nat.le_sub_one_of_lt hk)
    back_forth := fun k hk => run_opposite (t := .forth) hat hk
    of_text_ne := by
      intro e hundo hredo hne
      exact place_run_of_records hat (recorded_react hat hundo hredo) hne }

end Session

end DeskCalc
