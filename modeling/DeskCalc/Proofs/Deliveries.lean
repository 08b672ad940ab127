import DeskCalc.Elementary.Platform
import DeskCalc.Proofs.Session

/-!
# Calculations are delivered once

Of every session it is recorded which calculations were started (`Session.started`) and which outcomes were delivered
(`Session.delivered`).  However the events are mixed, no calculation is started while another one waits, and what was
started is delivered once and in order, except for the one that still waits: the problem and the value of the window as
it was at the start, whatever has become of it since (`Session.orderly_run`).

The previous answer is the last result that was delivered, and the one found in the store before that.

All this is about windows that take outcomes up by themselves.  A calculation that calls the window may get an error
back from it, and delivers that as a second outcome.
-/

namespace DeskCalc

/-- The text of the window and its value as things stand in the window. -/
def Window.calculation (fn : Elementary) (w : Window) : List Char × Except Fault Double :=
  (w.text, evaluate fn (.ofRadians w.settings.radianMode) w.settings.fix (.ofOption w.previous) (String.ofList w.text))

/-- What a waiting calculation will deliver. -/
def Job.delivery (fn : Elementary) (j : Job) : List Char × Except Fault Double :=
  (j.problem, j.outcome fn)

/-- What the user is told about an outcome: nothing about a number, and one thing about anything else. -/
def Window.told (w : Window) (problem : List Char) : Except Fault Double → List Notice
  | .ok _ => []
  | .error (.help usage) => [.usage usage]
  | .error f => [.ofReport (f.report (some (String.ofList problem))) (String.ofList problem) w.settings.darkMode]

/-- The numbers among the outcomes. -/
def results (deliveries : List (List Char × Except Fault Double)) : List Double :=
  deliveries.filterMap fun x => x.2.toOption

namespace Session

/-! ### Records -/

section

variable [Host]

/-- The window after an event that has started a calculation. -/
def startedBy (fn : Elementary) (s : Session) (e : Event) : List Window :=
  if s.desktop.waiting.length < (s.react fn e).desktop.waiting.length then [(s.react fn e).desktop.window] else []

/-- The outcome that an event delivers. -/
def deliveredBy (fn : Elementary) (s : Session) (e : Event) : List (List Char × Except Fault Double) :=
  ((e.job? s.desktop).map (Job.delivery fn)).toList

/-- The windows as they were when calculations were started. -/
def started (fn : Elementary) (s : Session) : List Event → List Window
  | [] => []
  | e :: es => s.startedBy fn e ++ (s.react fn e).started fn es

/-- The outcomes that were delivered. -/
def delivered (fn : Elementary) (s : Session) : List Event → List (List Char × Except Fault Double)
  | [] => []
  | e :: es => s.deliveredBy fn e ++ (s.react fn e).delivered fn es

end

/-- At most one calculation waits, and the window is busy exactly while one does. -/
structure Single (s : Session) : Prop where
  length_le : s.desktop.waiting.length ≤ 1
  active_iff : s.desktop.window.active = true ↔ s.desktop.waiting ≠ []

end Session

/-! ### What changes of the window keep -/

namespace Window

variable {w w' : Window}

private theorem Touch.active_eq (h : w.Touch w') : w'.active = w.active := by
  cases h <;> rfl

theorem Touch.previous_eq (h : w.Touch w') : w'.previous = w.previous := by
  cases h <;> rfl

private theorem active_moveTo (w : Window) (place : Option (List Char × History)) :
    (w.moveTo place).active = w.active := by
  cases place <;> rfl

private theorem previous_moveTo (w : Window) (place : Option (List Char × History)) :
    (w.moveTo place).previous = w.previous := by
  cases place <;> rfl

variable [Host] {problem : List Char} {outcome : Except Fault Double}

private theorem Taken.active_eq (h : w.Taken problem outcome w') : w'.active = false := by
  cases h <;> rfl

theorem Taken.previous_eq (h : w.Taken problem outcome w') : w'.previous = outcome.toOption.or w.previous := by
  cases h <;> rfl

theorem Taken.text_eq {f : Fault} (h : w.Taken problem (.error f) w') : w'.text = w.text := by
  cases h <;> rfl

omit [Host] in
private theorem told_error (w : Window) (problem : List Char) (f : Fault) : ∃ n, w.told problem (.error f) = [n] := by
  cases f <;> exact ⟨_, rfl⟩

end Window

/-- A window that takes outcomes up by itself tells the user nothing but what it is to tell. -/
theorem Desktop.notices_deliver [Host] (queued : Host.handover = .queued) (fn : Elementary) (d : Desktop) (j : Job) :
    (d.deliver fn j).notices = d.notices ++ d.window.told j.problem (j.outcome fn) := by
  unfold deliver
  cases j.outcome fn with
  | ok x =>
    obtain ⟨store, log, hkept⟩ := exists_keepAnswer d x
    simp only [showResult, hkept, queued, Window.told, List.append_nil]
    cases plainNumeral d.window.settings.base d.window.settings.fix x <;> rfl
  | error f => cases f <;> rfl

namespace Session

section

variable [Host] {fn : Elementary} {s : Session}

/-! ### One event -/

omit [Host] in
private theorem Single.eq_singleton (h : s.Single) {i : Nat} {j : Job} (hj : s.desktop.waiting[i]? = some j) :
    s.desktop.waiting = [j] ∧ i = 0 := by
  have hlength := h.length_le
  match hwaiting : s.desktop.waiting, i with
  | [], _ => simp [hwaiting] at hj
  | [k], 0 => simpa [hwaiting] using hj
  | [k], i + 1 => simp [hwaiting] at hj
  | _ :: _ :: _, _ => simp [hwaiting] at hlength

omit [Host] in
theorem Single.eq_nil (h : s.Single) (idle : s.desktop.window.active = false) : s.desktop.waiting = [] := by
  apply Classical.byContradiction
  intro hne
  have hactive := h.active_iff.2 hne
  rw [idle] at hactive
  cases hactive

theorem Single.react (h : s.Single) (e : Event) : (s.react fn e).Single := by
  cases step_react fn s e with
  | undo _ hw hj => exact ⟨hj ▸ h.length_le, by rw [hw, hj, Window.undo, Window.active_moveTo]; exact h.active_iff⟩
  | redo _ hw hj => exact ⟨hj ▸ h.length_le, by rw [hw, hj, Window.redo, Window.active_moveTo]; exact h.active_iff⟩
  | touch _ htouch hj => exact ⟨hj ▸ h.length_le, by rw [htouch.active_eq, hj]; exact h.active_iff⟩
  | start _ idle w _ hw hj =>
    rw [h.eq_nil idle] at hj
    exact ⟨hj ▸ Nat.le_refl 1, by simp [hw, hj, Window.wait]⟩
  | deliver i j _ hget htaken hj =>
    obtain ⟨hwaiting, rfl⟩ := h.eq_singleton hget
    rw [hwaiting] at hj
    exact ⟨hj ▸ Nat.zero_le 1, by simp [htaken.active_eq, hj]⟩

private theorem startedBy_eq_nil {e : Event} (h : (s.react fn e).desktop.waiting.length ≤ s.desktop.waiting.length) :
    s.startedBy fn e = [] :=
  if_neg (Nat.not_lt.2 h)

omit [Host] in
theorem deliveredBy_eq_nil {e : Event} (h : e.job? s.desktop = none) : s.deliveredBy fn e = [] := by
  rw [deliveredBy, h]
  rfl

/-- An event after which the same calculations wait. -/
private theorem balance_of_eq {e : Event} (hjob : e.job? s.desktop = none)
    (hwaiting : (s.react fn e).desktop.waiting = s.desktop.waiting) :
    s.desktop.waiting.map (Job.delivery fn) ++ (s.startedBy fn e).map (Window.calculation fn) =
      s.deliveredBy fn e ++ (s.react fn e).desktop.waiting.map (Job.delivery fn) := by
  rw [deliveredBy_eq_nil hjob, startedBy_eq_nil (Nat.le_of_eq (congrArg List.length hwaiting)), hwaiting]
  exact List.append_nil _

/-- What waits and what is started makes up what is delivered and what waits afterwards. -/
theorem Single.balance (h : s.Single) (e : Event) :
    s.desktop.waiting.map (Job.delivery fn) ++ (s.startedBy fn e).map (Window.calculation fn) =
      s.deliveredBy fn e ++ (s.react fn e).desktop.waiting.map (Job.delivery fn) := by
  cases step_react fn s e with
  | undo hlabel _ hj => exact balance_of_eq (Event.job?_of_label hlabel _) hj
  | redo hlabel _ hj => exact balance_of_eq (Event.job?_of_label hlabel _) hj
  | touch hjob _ hj => exact balance_of_eq hjob hj
  | start hjob idle w _ hw hj =>
    rw [h.eq_nil idle] at hj
    have hstarted : s.startedBy fn e = [w.wait] := by
      simp [startedBy, h.eq_nil idle, hj, hw]
    rw [deliveredBy_eq_nil hjob, hstarted, h.eq_nil idle, hj]
    rfl
  | deliver i j he hget htaken hj =>
    obtain ⟨hwaiting, rfl⟩ := h.eq_singleton hget
    have hdelivered : s.deliveredBy fn e = [j.delivery fn] := by
      rw [deliveredBy, he, Event.job?, hget]
      rfl
    rw [hwaiting] at hj
    rw [hdelivered, startedBy_eq_nil (by rw [hj]; exact Nat.zero_le _), hwaiting, hj]
    rfl

/-- The previous answer becomes the result that is delivered, if one is. -/
theorem previous_react (s : Session) (e : Event) :
    (s.react fn e).desktop.window.previous = (results (s.deliveredBy fn e)).getLast?.or s.desktop.window.previous := by
  have hnone : e.job? s.desktop = none →
      (results (s.deliveredBy fn e)).getLast?.or s.desktop.window.previous = s.desktop.window.previous := by
    intro hjob
    rw [deliveredBy_eq_nil hjob]
    rfl
  cases step_react fn s e with
  | undo hlabel hw _ =>
    rw [hnone (Event.job?_of_label hlabel _), hw]
    exact Window.previous_moveTo _ _
  | redo hlabel hw _ =>
    rw [hnone (Event.job?_of_label hlabel _), hw]
    exact Window.previous_moveTo _ _
  | touch hjob htouch _ => rw [hnone hjob, htouch.previous_eq]
  | start hjob _ w htouch hw _ =>
    rw [hnone hjob, hw]
    exact htouch.previous_eq
  | deliver i j he hget htaken _ =>
    have hlast : (results (s.deliveredBy fn e)).getLast? = (j.outcome fn).toOption := by
      rw [deliveredBy, he, Event.job?, hget]
      show (results [(j.problem, j.outcome fn)]).getLast? = _
      cases j.outcome fn <;> rfl
    rw [htaken.previous_eq, hlast]

/-! ### A series of events -/

theorem Single.run (h : s.Single) (es : List Event) : (s.run fn es).Single :=
  run_invariant Single (fun _ e hs => hs.react e) h es

/-- What waits at first and what is started makes up what is delivered and what waits in the end. -/
private theorem Single.balance_run (h : s.Single) (es : List Event) :
    s.desktop.waiting.map (Job.delivery fn) ++ (s.started fn es).map (Window.calculation fn) =
      s.delivered fn es ++ (s.run fn es).desktop.waiting.map (Job.delivery fn) := by
  induction es generalizing s with
  | nil => exact List.append_nil _
  | cons e es ih =>
    calc
      s.desktop.waiting.map (Job.delivery fn) ++
            (s.startedBy fn e ++ (s.react fn e).started fn es).map (Window.calculation fn)
          = s.deliveredBy fn e ++ ((s.react fn e).desktop.waiting.map (Job.delivery fn) ++
              ((s.react fn e).started fn es).map (Window.calculation fn)) := by
        rw [List.map_append, ← List.append_assoc, h.balance e, List.append_assoc]
      _ = (s.deliveredBy fn e ++ (s.react fn e).delivered fn es) ++
            ((s.react fn e).run fn es).desktop.waiting.map (Job.delivery fn) := by
        rw [ih (h.react e), List.append_assoc]

private theorem previous_run (s : Session) (es : List Event) :
    (s.run fn es).desktop.window.previous = (results (s.delivered fn es)).getLast?.or s.desktop.window.previous := by
  induction es generalizing s with
  | nil => rfl
  | cons e es ih =>
    have hresults : results (s.deliveredBy fn e ++ (s.react fn e).delivered fn es) =
        results (s.deliveredBy fn e) ++ results ((s.react fn e).delivered fn es) := List.filterMap_append
    rw [run_cons, ih, previous_react, delivered, hresults, List.getLast?_append, Option.or_assoc]

/-! ### Sessions from their opening on -/

/-- What delivering the outcome of a calculation does. -/
structure Delivers (fn : Elementary) (s : Session) (j : Job) (s' : Session) : Prop where
  /-- The calculation does not wait any longer, and no other one does. -/
  waiting_eq : s'.desktop.waiting = []
  /-- The user is told about this outcome and nothing else. -/
  notices_eq : s'.desktop.notices = s.desktop.notices ++ s.desktop.window.told j.problem (j.outcome fn)
  /-- A number is the new previous answer. -/
  of_result : ∀ x, j.outcome fn = .ok x → s'.desktop.window.previous = some x
  /-- Of a fault the user is told in one notice, and nothing changes in the text and the previous answer. -/
  of_fault : ∀ f, j.outcome fn = .error f → (s.desktop.window.told j.problem (.error f)).length = 1 ∧
    s'.desktop.window.text = s.desktop.window.text ∧ s'.desktop.window.previous = s.desktop.window.previous

/-- How a session stands with its calculations, of which some were started and some outcomes delivered. -/
structure Orderly (fn : Elementary) (loaded : Option Double) (started : List Window)
    (delivered : List (List Char × Except Fault Double)) (s : Session) : Prop where
  /-- At most one calculation waits. -/
  length_waiting_le : s.desktop.waiting.length ≤ 1
  /-- The window is busy exactly while one waits. -/
  active_iff : s.desktop.window.active = true ↔ s.desktop.waiting ≠ []
  /-- While none waits, the enter key starts the one of the window. -/
  starts : s.desktop.waiting = [] → ∀ e : Event, e.label? = some Label.enter →
    (s.react fn e).desktop.waiting = [s.desktop.window.job]
  /-- While one waits, the enter key leaves only an entry in the log. -/
  refuses : s.desktop.waiting ≠ [] → ∀ e : Event, e.label? = some Label.enter →
    (s.react fn e).desktop = s.desktop.addLog [⟨.warning, .window, "A calculation is already running"⟩] ∧
      (s.react fn e).dialog = s.dialog
  /-- Each calculation that was started is delivered once and in its turn, or waits, and what is delivered is the
  problem and the value of the window at the start. -/
  calculations_eq : started.map (Window.calculation fn) = delivered ++ s.desktop.waiting.map (Job.delivery fn)
  /-- What is delivered to the window. -/
  delivers : ∀ i j, s.desktop.waiting[i]? = some j → Delivers fn s j (s.react fn (.deliver i))
  /-- The previous answer is the last number that was delivered. -/
  previous_eq : s.desktop.window.previous = (results delivered).getLast?.or loaded
  /-- Only the delivery of a number changes it. -/
  of_previous_ne : ∀ e, (s.react fn e).desktop.window.previous ≠ s.desktop.window.previous →
    ∃ i j x, e = .deliver i ∧ s.desktop.waiting[i]? = some j ∧ j.outcome fn = .ok x ∧
      (s.react fn e).desktop.window.previous = some x

theorem starts_of_label (h : s.Single) (hwaiting : s.desktop.waiting = []) {e : Event}
    (hlabel : e.label? = some Label.enter) : (s.react fn e).desktop.waiting = [s.desktop.window.job] := by
  have idle : s.desktop.window.active = false := by
    rw [← Bool.not_eq_true, h.active_iff]
    exact fun hne => hne hwaiting
  rw [(react_of_label fn hlabel).1]
  show (s.desktop.calculate fn).waiting = _
  rw [Desktop.calculate_of_idle s.held idle, hwaiting]
  rfl

private theorem refuses_of_label (h : s.Single) (hwaiting : s.desktop.waiting ≠ []) {e : Event}
    (hlabel : e.label? = some Label.enter) :
    (s.react fn e).desktop = s.desktop.addLog [⟨.warning, .window, "A calculation is already running"⟩] ∧
      (s.react fn e).dialog = s.dialog := by
  obtain ⟨hdesktop, hdialog⟩ := react_of_label fn hlabel
  exact ⟨hdesktop.trans (Desktop.calculate_of_active (h.active_iff.2 hwaiting)), hdialog⟩

/-- After a delivery nothing waits. -/
theorem Single.waiting_deliver (h : s.Single) {i : Nat} {j : Job} (hget : s.desktop.waiting[i]? = some j) :
    (s.react fn (.deliver i)).desktop.waiting = [] := by
  obtain ⟨hwaiting, rfl⟩ := h.eq_singleton hget
  obtain ⟨w, notices, store, log, -, hdeliver⟩ := Desktop.exists_deliverAt fn hget
  have hdesktop : (s.react fn (.deliver 0)).desktop = _ := hdeliver
  rw [hdesktop]
  show s.desktop.waiting.eraseIdx 0 = []
  rw [hwaiting]
  rfl

/-- A number that is delivered is the new previous answer. -/
theorem previous_deliver {i : Nat} {j : Job} {x : Double} (hget : s.desktop.waiting[i]? = some j)
    (hx : j.outcome fn = .ok x) : (s.react fn (.deliver i)).desktop.window.previous = some x := by
  obtain ⟨w, notices, store, log, htaken, hdeliver⟩ := Desktop.exists_deliverAt fn hget
  have hdesktop : (s.react fn (.deliver i)).desktop = _ := hdeliver
  rw [hdesktop]
  show w.previous = some x
  rw [htaken.previous_eq, hx]
  rfl

theorem Single.delivers (queued : Host.handover = .queued) (h : s.Single) {i : Nat} {j : Job}
    (hget : s.desktop.waiting[i]? = some j) : Delivers fn s j (s.react fn (.deliver i)) := by
  obtain ⟨w, notices, store, log, htaken, hdeliver⟩ := Desktop.exists_deliverAt fn hget
  have hdesktop : (s.react fn (.deliver i)).desktop = _ := hdeliver
  refine ⟨h.waiting_deliver hget, ?_, ?_, ?_⟩
  · show (s.desktop.deliverAt fn i).notices = _
    rw [Desktop.deliverAt, hget]
    exact Desktop.notices_deliver queued fn { s.desktop with waiting := s.desktop.waiting.eraseIdx i } j
  · exact fun x hx => previous_deliver hget hx
  · intro f hf
    rw [hf] at htaken
    rw [hdesktop]
    obtain ⟨n, hn⟩ := s.desktop.window.told_error j.problem f
    exact ⟨congrArg List.length hn, htaken.text_eq, htaken.previous_eq⟩

private theorem of_previous_ne {e : Event} (h : (s.react fn e).desktop.window.previous ≠ s.desktop.window.previous) :
    ∃ i j x, e = .deliver i ∧ s.desktop.waiting[i]? = some j ∧ j.outcome fn = .ok x ∧
      (s.react fn e).desktop.window.previous = some x := by
  cases step_react fn s e with
  | undo _ hw _ => exact absurd (hw ▸ Window.previous_moveTo _ _) h
  | redo _ hw _ => exact absurd (hw ▸ Window.previous_moveTo _ _) h
  | touch _ htouch _ => exact absurd htouch.previous_eq h
  | start _ _ w htouch hw _ => exact absurd (hw ▸ htouch.previous_eq) h
  | deliver i j he hget htaken _ =>
    have hprevious := htaken.previous_eq
    cases hx : j.outcome fn with
    | ok x =>
      rw [hx] at hprevious
      exact ⟨i, j, x, he, hget, hx, hprevious⟩
    | error f =>
      rw [hx] at hprevious
      exact absurd hprevious h

omit [Host] in
theorem single_opening (c : Settings) (overrides : List (Text × Json)) (store : Store) (log : List LogEntry) :
    (opening c overrides store log).Single :=
  ⟨Nat.zero_le 1, by simp [opening, ofDesktop, Desktop.holding, Window.start]⟩

/-- However the events of a session are mixed, its calculations are delivered once, in order, and as they were
started. -/
theorem orderly_run (queued : Host.handover = .queued) (fn : Elementary) (c : Settings)
    (overrides : List (Text × Json)) (store : Store) (log : List LogEntry) (es : List Event) :
    let s₀ := opening c overrides store log
    Orderly fn (Files.loadAnswer store Files.cacheFolder) (s₀.started fn es) (s₀.delivered fn es) (s₀.run fn es) := by
  intro s₀
  have h : s₀.Single := single_opening c overrides store log
  have hrun : (s₀.run fn es).Single := h.run es
  exact {
    length_waiting_le := hrun.length_le
    active_iff := hrun.active_iff
    starts := fun hwaiting _ hlabel => starts_of_label hrun hwaiting hlabel
    refuses := fun hwaiting _ hlabel => refuses_of_label hrun hwaiting hlabel
    calculations_eq := h.balance_run es
    delivers := fun _ _ hget => hrun.delivers queued hget
    previous_eq := previous_run s₀ es
    of_previous_ne := fun _ => of_previous_ne }

end

/-- Of one with `2 ^ 31` decimal places the user is not told anything, but it is the previous answer. -/
theorem orderly_one :
    let host : Host := { Host.plain with handover := .queued }
    let c : Settings := ⟨2 ^ 31, 10, false, false, true, false, by decide, by decide⟩
    let s₀ := opening c [] ⟨"", []⟩ []
    let es : List Event := [.press ['1'] (by decide), .press Label.enter (by decide), .deliver 0]
    let s := s₀.run .platform es
    host.handover = .queued ∧
      Orderly .platform none (s₀.started .platform es) (s₀.delivered .platform es) s ∧
      s.desktop.window.previous = some (Double.ofNat 1) ∧ s.desktop.notices = [] := by
  intro host c s₀ es s
  have queued : host.handover = .queued := rfl
  have horderly : Orderly .platform none (s₀.started .platform es) (s₀.delivered .platform es) s :=
    orderly_run queued .platform c [] ⟨"", []⟩ [] es
  refine ⟨queued, horderly, ?_, ?_⟩
  · decide +kernel
  · decide +kernel

end Session

end DeskCalc
