import Mathlib.Data.List.Induction
import DeskCalc.Proofs.Session
import DeskCalc.Elementary.Platform

/-!
# The display of an idle window

While no calculation is running, the display should show the text of the window.  It does as long as nobody edits the
text during a calculation that fails: a failed calculation puts its own problem back on the display, and leaves the
text as it is.  A result without a numeral is like a failure to a calculation that calls the window.  If the window
takes outcomes up by itself, such a result leaves the display as it is, which shows the text only if it has been edited
since.  `Session.showsText_run_iff` says that there is no other way to a display that shows something else, and
`Session.display_after_edit` has a session that goes this way.
-/

namespace DeskCalc

/-! ### The window -/

namespace Window

variable {w w' : Window}

/-- The display shows the text unless a calculation is running. -/
def ShowsText (w : Window) : Prop :=
  w.active = false → w.display = w.text

/-- The outcome of a calculation of `problem` is no call for help and has no numeral, and leaves the display with the
given text. -/
inductive Leaves [Host] (w : Window) (problem : List Char) : Except Fault Double → List Char → Prop where
  | dropped (x : Double) (e : NumeralError) (unwritten : plainNumeral w.settings.base w.settings.fix x = .error e)
      (queued : Host.handover = .queued) : Leaves w problem (.ok x) w.display
  | returned (x : Double) (e : NumeralError) (unwritten : plainNumeral w.settings.base w.settings.fix x = .error e)
      (direct : Host.handover = .direct) : Leaves w problem (.ok x) problem
  | fault (f : Fault) (kind_ne : f.kind ≠ .help) : Leaves w problem (.error f) problem

namespace ShowsText

theorem start (c : Settings) (previous : Option Double) : (start c previous).ShowsText :=
  fun _ => rfl

theorem touch (h : w.ShowsText) (htouch : w.Touch w') : w'.ShowsText := by
  cases htouch with
  | edit => exact fun _ => rfl
  | adjust => exact h

theorem moveTo (w : Window) (place : Option (List Char × History)) : (w.moveTo place).ShowsText := by
  cases place <;> exact fun _ => rfl

theorem wait (w : Window) : w.wait.ShowsText :=
  nofun

end ShowsText

/-- A result with a numeral leaves the display with nothing but that. -/
private theorem not_leaves_of_written [Host] {problem shown numeral : List Char} {x : Double}
    (written : plainNumeral w.settings.base w.settings.fix x = .ok numeral) : ¬w.Leaves problem (.ok x) shown := by
  rintro (⟨_, _, unwritten, _⟩ | ⟨_, _, unwritten, _⟩) <;> rw [written] at unwritten <;> cases unwritten

/-- After an outcome the display shows the text, unless the outcome leaves the display with another text. -/
private theorem Taken.showsText_iff [Host] {problem : List Char} {outcome : Except Fault Double}
    (h : w.Taken problem outcome w') : w'.ShowsText ↔ ∀ shown, w.Leaves problem outcome shown → w.text = shown := by
  have hreleased : (w.release problem).ShowsText ↔ w.text = problem :=
    ⟨fun hshows => (hshows rfl).symm, fun htext _ => htext.symm⟩
  cases h with
  | result x numeral written =>
    exact iff_of_true (fun _ => rfl) fun shown hleaves => absurd hleaves (not_leaves_of_written written)
  | dropped x e unwritten queued =>
    constructor
    · intro hshows shown hleaves
      cases hleaves with
      | dropped => exact (hshows rfl).symm
      | returned _ _ _ direct => cases queued.symm.trans direct
    · intro hfinds _
      exact (hfinds w.display (.dropped x e unwritten queued)).symm
  | returned x e unwritten direct =>
    refine hreleased.trans ⟨?_, fun hfinds => hfinds problem (.returned x e unwritten direct)⟩
    intro htext shown hleaves
    cases hleaves with
    | dropped _ _ _ queued => cases queued.symm.trans direct
    | returned => exact htext
  | usage usage =>
    refine iff_of_true (fun _ => rfl) ?_
    intro shown hleaves
    cases hleaves with
    | fault f kind_ne => exact absurd rfl kind_ne
  | fault f kind_ne =>
    refine hreleased.trans ⟨?_, fun hfinds => hfinds problem (.fault f kind_ne)⟩
    intro htext shown hleaves
    cases hleaves
    exact htext

end Window

/-! ### Sessions -/

namespace Session

section

variable [Host] {fn : Elementary} {s : Session}

/-- If the event delivers the outcome of a calculation and this leaves the display with a text, it is the text of the
window. -/
def FindsText (fn : Elementary) (s : Session) (e : Event) : Prop :=
  ∀ j, e.job? s.desktop = some j →
    ∀ shown, s.desktop.window.Leaves j.problem (j.outcome fn) shown → s.desktop.window.text = shown

private theorem findsText_of_job? {e : Event} (h : e.job? s.desktop = none) : s.FindsText fn e := by
  intro j hj
  rw [h] at hj
  cases hj

/-- The display goes on showing the text exactly if the event finds the text that it leaves. -/
private theorem showsText_react_iff (h : s.desktop.window.ShowsText) (e : Event) :
    (s.react fn e).desktop.window.ShowsText ↔ s.FindsText fn e := by
  cases step_react fn s e with
  | undo hlabel hw _ =>
    rw [hw]
    exact iff_of_true (.moveTo _ _) (findsText_of_job? (Event.job?_of_label hlabel _))
  | redo hlabel hw _ =>
    rw [hw]
    exact iff_of_true (.moveTo _ _) (findsText_of_job? (Event.job?_of_label hlabel _))
  | touch hjob htouch _ => exact iff_of_true (h.touch htouch) (findsText_of_job? hjob)
  | start hjob _ w _ hw _ =>
    rw [hw]
    exact iff_of_true (.wait w) (findsText_of_job? hjob)
  | deliver i j he hget htaken _ =>
    have hjob : e.job? s.desktop = some j := by
      rw [he]
      exact hget
    refine htaken.showsText_iff.trans ⟨?_, fun hfinds => hfinds j hjob⟩
    intro hfinds j' hj'
    obtain rfl := Option.some.inj (hjob.symm.trans hj')
    exact hfinds

/-- The display shows the text of the idle window at all times of a session exactly if every outcome that leaves the
display with a text finds it as the text of the window when it is delivered. -/
theorem showsText_run_iff (fn : Elementary) (c : Settings) (overrides : List (Text × Json)) (store : Store)
    (log : List LogEntry) (es : List Event) :
    let s₀ := opening c overrides store log
    (∀ es', es' <+: es → (s₀.run fn es').desktop.window.ShowsText) ↔
      ∀ es' e, es' ++ [e] <+: es → (s₀.run fn es').FindsText fn e := by
  intro s₀
  constructor
  · intro hshows es' e hprefix
    have hbefore := hshows es' ((List.prefix_append es' [e]).trans hprefix)
    have hafter := hshows (es' ++ [e]) hprefix
    rw [run_concat] at hafter
    exact (showsText_react_iff hbefore e).1 hafter
  · -- the display has to show the text before an event for the event to tell what it shows afterwards
    intro hfinds es' hprefix
    induction es' using List.reverseRecOn with
    | nil => exact .start c _
    | append_singleton es' e ih =>
      have hbefore := ih ((List.prefix_append es' [e]).trans hprefix)
      rw [run_concat]
      exact (showsText_react_iff hbefore e).2 (hfinds es' e hprefix)

end

/-- A calculation of `1+` fails after `2` has been typed: the idle window shows `1+`, but would calculate `1+2`. -/
theorem display_after_edit :
    let s := (opening ⟨10, 10, false, false, true, false, by decide, by decide⟩ [] ⟨"", []⟩ []).run .platform
      [.press ['1'] (by decide), .press ['+'] (by decide), .press Label.enter (by decide), .press ['2'] (by decide),
        .deliver 0]
    s.desktop.window.active = false ∧ s.desktop.window.display = ['1', '+'] ∧
      s.desktop.window.text = ['1', '+', '2'] ∧ ¬s.desktop.window.ShowsText := by
  intro s
  have hidle : s.desktop.window.active = false := by decide +kernel
  have hdisplay : s.desktop.window.display = ['1', '+'] := by decide +kernel
  have htext : s.desktop.window.text = ['1', '+', '2'] := by decide +kernel
  refine ⟨hidle, hdisplay, htext, ?_⟩
  intro hshows
  have heq := hshows hidle
  rw [hdisplay, htext] at heq
  exact absurd heq (by decide)

end Session

end DeskCalc
