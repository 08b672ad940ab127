import DeskCalc.Proofs.RepeatedResult

/-!
# Going on from a result

After a result has been received, an operator puts the previous answer `_` in the place of the text, and digits and
enter after it calculate the operator on the stored answer and the number of the digits
(`Session.continues_from_answer`).  The numeral that is shown for the answer plays no part in it, so this works for all
answers, in all bases.
-/

namespace DeskCalc

/-! ### The value of the text -/

/-- An infix operator between two atoms is a tree, and its kernel has the value of it. -/
private theorem Derivation.exists_of_operator (fn : Elementary) (mode : AngleMode) (a b : Derivation .atom)
    {op : Operator} (binary : op ≠ .negate) :
    ∃ e : Derivation .sum, e.yield = a.yield ++ .operator op :: b.yield ∧
      e.value fn mode = (op.kernel fn).apply [a.value fn mode, b.value fn mode] := by
  let u : Derivation .signed := .ofAtom a
  let p : Derivation .power := .ofSigned (.ofAtom b)
  cases op with
  | add => exact ⟨.add (.ofProduct (.ofPower (.ofSigned u))) (.ofPower p), rfl, rfl⟩
  | subtract => exact ⟨.subtract (.ofProduct (.ofPower (.ofSigned u))) (.ofPower p), rfl, rfl⟩
  | multiply => exact ⟨.ofProduct (.multiply (.ofPower (.ofSigned u)) p), rfl, rfl⟩
  | divide => exact ⟨.ofProduct (.divide (.ofPower (.ofSigned u)) p), rfl, rfl⟩
  | power => exact ⟨.ofProduct (.ofPower (.raise u p)), rfl, rfl⟩
  | negate => exact absurd rfl binary

/-- The previous answer, an operator and a literal. -/
def continuedItems (op : Operator) (binary : op ≠ .negate) (l : Literal) : List Item :=
  [.previous, .operator op binary, .literal l]

section Value

variable {fn : Elementary} {mode : AngleMode} {op : Operator}

private theorem spells_continuedItems (r : Double) (binary : op ≠ .negate) (l : Literal) :
    Spells (PreviousAnswer.value r).number? (continuedItems op binary l) ('_' :: op.symbol :: l.text) := by
  refine ⟨⟨trivial, fun _ => rfl, ?_, nofun, trivial, nofun, trivial⟩, ?_⟩
  · cases op <;> trivial
  · exact congrArg (fun text => '_' :: op.symbol :: text) (List.append_nil l.text)

private theorem tokensOf_continuedItems (r : Double) (binary : op ≠ .negate) (l : Literal) :
    Item.tokensOf r (continuedItems op binary l) =
      [.previous r, .operator op, .number (literalValue l.text)] := by
  have htoken : (Item.literal l).token r = .number (literalValue l.text) := by
    rw [Item.token, l.readDouble_text, Option.getD_some]
  exact congrArg (fun t => [.previous r, .operator op, t]) htoken

/-- The text of an operator on the previous answer and a literal is evaluated by rounding the value of the operator. -/
private theorem evaluate_continued (fix : Int) (r : Double) (binary : op ≠ .negate) (l : Literal) :
    evaluate fn mode fix (.value r) (String.ofList ('_' :: op.symbol :: l.text)) =
      (roundToPlaces ((op.kernel fn).apply [r, literalValue l.text]) fix).mapError .setting := by
  obtain ⟨e, hyield, hvalue⟩ :=
    Derivation.exists_of_operator fn mode (.previous r) (.number (literalValue l.text)) binary
  have htokens : Item.tokensOf r (continuedItems op binary l) = e.yield :=
    (tokensOf_continuedItems r binary l).trans hyield.symm
  have hplain : ∀ c ∈ '_' :: op.symbol :: l.text, c ∈ plainChars := by
    have hsymbols : ∀ op : Operator, op.symbol ∈ plainChars := by
      intro op
      cases op <;> decide
    intro c hc
    rcases List.mem_cons.1 hc with rfl | hc
    · decide
    rcases List.mem_cons.1 hc with rfl | hc
    · exact hsymbols op
    · exact List.mem_append_left _ (mem_literalChars (l.isLiteralChar_of_mem c hc))
  rw [evaluate_of_spells fix (spells_continuedItems r binary l) htokens hplain (List.cons_ne_nil _ _)]
  exact congrArg (fun x => (roundToPlaces x fix).mapError Fault.setting) hvalue

end Value

/-! ### Typing -/

private theorem Button.ofLabel_digit {c : Char} (h : isAsciiDigit c = true) : ofLabel [c] = .text [c] := by
  have hall : literalChars.all (fun c => decide (ofLabel [c] = .text [c])) = true := by decide
  have hliteral : isLiteralChar c = true := by rw [isLiteralChar, h, Bool.true_or]
  exact of_decide_eq_true (of_isLiteralChar hall hliteral)

private theorem Button.ofLabel_symbol (op : Operator) : ofLabel [op.symbol] = .text [op.symbol] := by
  cases op <;> rfl

namespace Window

variable {w : Window}

/-- An operator after a result continues from the previous answer. -/
private theorem type_symbol (received : w.received = true) (op : Operator) :
    w.type [op.symbol] = w.edit ['_', op.symbol] := by
  have hcontinuing : [op.symbol] ∈ continuing := by cases op <;> decide
  have hbefore : w.textBefore [op.symbol] = ['_'] := by
    simp only [textBefore, received, hcontinuing, if_true]
    rfl
  rw [type, hbefore]
  rfl

/-- What is typed in a window without a result is added to a text that is longer than zero. -/
private theorem foldl_type (edited : w.received = false) (long : 1 < w.text.length) (typed : List (List Char)) :
    (typed.foldl type w).job = ⟨w.text ++ typed.flatten, w.previous, w.settings⟩ ∧
      (typed.foldl type w).active = w.active := by
  induction typed generalizing w with
  | nil => exact ⟨congrArg (fun text => (⟨text, w.previous, w.settings⟩ : Job)) (List.append_nil w.text).symm, rfl⟩
  | cons t typed ih =>
    have hne : w.text ≠ ['0'] := by
      intro heq
      rw [heq] at long
      exact absurd long (by decide)
    have hbefore : w.textBefore t = w.text := by
      simp [textBefore, edited, hne]
    have htype : w.type t = w.edit (w.text ++ t) := by rw [type, hbefore]
    have hlong : 1 < (w.edit (w.text ++ t)).text.length := by
      show 1 < (w.text ++ t).length
      rw [List.length_append]
      omega
    rw [List.foldl_cons, htype, List.flatten_cons, ← List.append_assoc]
    exact ih rfl hlong

/-- A result that has been received is the previous answer. -/
def KnowsAnswer (w : Window) : Prop :=
  w.received = true → ∃ r, w.previous = some r

namespace KnowsAnswer

theorem start (c : Settings) (previous : Option Double) : (start c previous).KnowsAnswer :=
  nofun

theorem touch {w' : Window} (h : w.KnowsAnswer) (htouch : w.Touch w') : w'.KnowsAnswer := by
  cases htouch with
  | edit => exact nofun
  | adjust => exact h

theorem moveTo (w : Window) (place : Option (List Char × History)) : (w.moveTo place).KnowsAnswer := by
  cases place <;> exact nofun

theorem wait (h : w.KnowsAnswer) : w.wait.KnowsAnswer :=
  h

theorem taken [Host] {w' : Window} {problem : List Char} {outcome : Except Fault Double} (h : w.KnowsAnswer)
    (htaken : w.Taken problem outcome w') : w'.KnowsAnswer := by
  cases htaken with
  | result x => exact fun _ => ⟨x, rfl⟩
  | dropped x => exact fun _ => ⟨x, rfl⟩
  | returned x => exact fun _ => ⟨x, rfl⟩
  | usage => exact h
  | fault => exact h

end KnowsAnswer

end Window

namespace Session

/-- The labels of an operator and digits. -/
def continuedLabels (op : Operator) (ds : List Char) : List (List Char) :=
  [op.symbol] :: ds.map fun d => [d]

private theorem ofLabel_of_mem_continuedLabels {op : Operator} {ds : List Char}
    (hds : ∀ c ∈ ds, isAsciiDigit c = true) : ∀ t ∈ continuedLabels op ds, Button.ofLabel t = .text t := by
  intro t ht
  rcases List.mem_cons.1 ht with rfl | ht
  · exact Button.ofLabel_symbol op
  · obtain ⟨d, hd, rfl⟩ := List.mem_map.1 ht
    exact Button.ofLabel_digit (hds d hd)

section

variable [Host] {fn : Elementary} {s : Session}

/-- Labels without a meaning of their own are typed in the window, and nothing else changes. -/
private theorem desktop_run_texts {es : List Event} {typed : List (List Char)}
    (labels : es.map Event.label? = typed.map some) (texts : ∀ t ∈ typed, Button.ofLabel t = .text t) :
    (s.run fn es).desktop = s.desktop.mapWindow (fun w => typed.foldl Window.type w) := by
  induction es generalizing s typed with
  | nil =>
    cases typed with
    | nil => rfl
    | cons t typed => cases labels
  | cons e es ih =>
    cases typed with
    | nil => cases labels
    | cons t typed =>
      obtain ⟨hlabel, hlabels⟩ := List.cons.inj labels
      have hpress : (s.react fn e).desktop = s.desktop.mapWindow (fun w => w.type t) := by
        rw [(react_of_label fn hlabel).1, Desktop.press, texts t List.mem_cons_self]
        rfl
      rw [run_cons, ih hlabels (fun u hu => texts u (List.mem_cons_of_mem t hu)), hpress]
      rfl

private theorem knowsAnswer_react (h : s.desktop.window.KnowsAnswer) (e : Event) :
    (s.react fn e).desktop.window.KnowsAnswer := by
  cases step_react fn s e with
  | undo _ hw _ =>
    rw [hw]
    exact .moveTo _ _
  | redo _ hw _ =>
    rw [hw]
    exact .moveTo _ _
  | touch _ htouch _ => exact h.touch htouch
  | start _ _ w htouch hw _ =>
    rw [hw]
    exact (h.touch htouch).wait
  | deliver i j _ _ htaken _ => exact h.taken htaken

private theorem Reachable.knowsAnswer (h : s.Reachable fn) : s.desktop.window.KnowsAnswer := by
  obtain ⟨c, overrides, store, log, es, rfl⟩ := h
  exact run_invariant (fun s => s.desktop.window.KnowsAnswer) (fun _ e hs => knowsAnswer_react hs e) (.start c _) es

/-- An operator and digits after a result leave the calculation of them on the previous answer in the window. -/
private theorem job_of_typing (received : s.desktop.window.received = true) {op : Operator} {ds : List Char}
    (hds : ∀ c ∈ ds, isAsciiDigit c = true) {typing : List Event}
    (labels : typing.map Event.label? = (continuedLabels op ds).map some) :
    (s.run fn typing).desktop.window.job =
        ⟨'_' :: op.symbol :: ds, s.desktop.window.previous, s.desktop.window.settings⟩ ∧
      (s.run fn typing).desktop.window.active = s.desktop.window.active := by
  rw [desktop_run_texts labels (ofLabel_of_mem_continuedLabels hds)]
  show ((ds.map fun d => [d]).foldl Window.type (s.desktop.window.type [op.symbol])).job = _ ∧
    ((ds.map fun d => [d]).foldl Window.type (s.desktop.window.type [op.symbol])).active = _
  have hlong : 1 < (s.desktop.window.edit ['_', op.symbol]).text.length := Nat.lt_succ_self 1
  obtain ⟨hjob, hactive⟩ := Window.foldl_type rfl hlong (ds.map fun d => [d])
  have hflatten : (ds.map fun d => [d]).flatten = ds := List.flatMap_singleton' ds
  rw [hflatten] at hjob
  rw [Window.type_symbol received]
  exact ⟨hjob, hactive⟩

/-- After a result has been received, an operator, digits and enter start the calculation of the operator on the stored
answer and the number of the digits.  Its rounded value becomes the previous answer. -/
theorem continues_from_answer (hs : s.Reachable fn) (received : s.desktop.window.received = true)
    (idle : s.desktop.window.active = false) :
    ∃ r, s.desktop.window.previous = some r ∧
      ∀ (op : Operator) (ds : List Char) (typing : List Event) (enter : Event), op ≠ .negate → ds ≠ [] →
        (∀ c ∈ ds, isAsciiDigit c = true) → typing.map Event.label? = (continuedLabels op ds).map some →
          enter.label? = some Label.enter →
            let s' := s.run fn (typing ++ [enter])
            ∃ x v j, readDouble ds = some x ∧
              roundToPlaces ((op.kernel fn).apply [r, x]) s.desktop.window.settings.fix = .ok v ∧
              s'.desktop.waiting = [j] ∧ j.outcome fn = .ok v ∧
              (s'.react fn (.deliver 0)).desktop.window.previous = some v := by
  obtain ⟨r, hr⟩ := hs.knowsAnswer received
  refine ⟨r, hr, fun op ds typing enter binary ne_nil hds labels henter => ?_⟩
  intro s'
  have typed : (s.run fn typing).Single := hs.single.run typing
  obtain ⟨hjob, hactive⟩ : (s.run fn typing).desktop.window.job =
        ⟨'_' :: op.symbol :: ds, s.desktop.window.previous, s.desktop.window.settings⟩ ∧
      (s.run fn typing).desktop.window.active = s.desktop.window.active := job_of_typing received hds labels
  have hstarted : s'.desktop.waiting = [(s.run fn typing).desktop.window.job] := by
    rw [show s' = (s.run fn typing).react fn enter from run_concat typing enter]
    exact starts_of_label typed (typed.eq_nil (hactive.trans idle)) henter
  let l := Literal.ofDigits ds [] ne_nil hds nofun
  have htext : l.text = ds := List.append_nil ds
  have hread : readDouble ds = some (literalValue ds) := by rw [← htext, l.readDouble_text]
  have hround := roundToPlaces_eq (Int.natCast_nonneg s.desktop.window.settings.fix)
    ((op.kernel fn).apply [r, literalValue ds])
  have houtcome : (s.run fn typing).desktop.window.job.outcome fn =
      .ok (((op.kernel fn).apply [r, literalValue ds]).roundTo s.desktop.window.settings.fix) := by
    rw [hjob, hr, Job.outcome, ← htext]
    refine (evaluate_continued _ r binary l).trans ?_
    rw [htext, hround]
    rfl
  have hget : s'.desktop.waiting[0]? = some (s.run fn typing).desktop.window.job := by
    rw [hstarted]
    rfl
  exact ⟨_, _, _, hread, hround, hstarted, houtcome, previous_deliver hget houtcome⟩

end

/-- Infinity, the value of `1/0`, is shown as a word that is no number, and still divided by two. -/
theorem continues_from_infinity :
    let c : Settings := ⟨10, 10, false, false, true, false, by decide, by decide⟩
    let s := (opening c [] ⟨"", []⟩ []).run .platform
      [.press ['1'] (by decide), .press ['/'] (by decide), .press ['0'] (by decide), .press Label.enter (by decide),
        .deliver 0]
    let typing : List Event := [.press ['/'] (by decide), .press ['2'] (by decide)]
    let enter : Event := .press Label.enter (by decide)
    s.desktop.window.text = ['i', 'n', 'f'] ∧
      ∃ r, s.desktop.window.previous = some r ∧
        ∃ x v j, readDouble ['2'] = some x ∧
          roundToPlaces ((Operator.divide.kernel .platform).apply [r, x]) c.fix = .ok v ∧
          (s.run .platform (typing ++ [enter])).desktop.waiting = [j] ∧ j.outcome .platform = .ok v ∧
          ((s.run .platform (typing ++ [enter])).react .platform (.deliver 0)).desktop.window.previous = some v := by
  intro c s typing enter
  have hs : s.Reachable .platform := ⟨c, [], _, [], _, rfl⟩
  have received : s.desktop.window.received = true := by decide +kernel
  have idle : s.desktop.window.active = false := by decide +kernel
  have settings_eq : s.desktop.window.settings = c := by decide +kernel
  obtain ⟨r, hr, hcontinues⟩ := continues_from_answer hs received idle
  have hdivide := hcontinues .divide ['2'] typing enter (by decide) (by decide) (List.all_eq_true.1 rfl) rfl rfl
  rw [settings_eq] at hdivide
  exact ⟨by decide +kernel, r, hr, hdivide⟩

end Session

end DeskCalc
