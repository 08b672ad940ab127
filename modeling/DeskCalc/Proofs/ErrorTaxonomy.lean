import DeskCalc.Proofs.ConversionFault
import DeskCalc.Proofs.RawEvaluation

/-!
# The reports of a calculation

A calculation ends with a number or with one report, and the report is about the problem: it calls for help, or it has
one of the codes of the first three stages and the evaluation (`calculationReports`), and it names the problem as it was
given.  A report about a setting is only made for a negative number of decimal places, the one about an unreadable
previous answer only for an answer that is a text.

Whatever traps is caught in the end and reported as unexpected, unless it is an access that nobody catches
(`Failure`).  Since no stage traps, neither ever happens (`evaluate_reports`).
-/

namespace DeskCalc

/-! ### Failures with traps -/

/-- Whether the trap is one of arithmetic, of an unreadable value or of a wrong call.  Missing entries are not caught. -/
def Trap.isCaught : Trap → Bool
  | .wrongArguments | .unreadable | .zeroDivisor | .unrepresentable | .math _ => true
  | .missingEntry | .missingName | .missingPart | .endless => false

/-- How a calculation that could trap fails: with the report of a fault, with the report `9999` that a trap is turned
into, or with a trap that escapes. -/
inductive Failure where
  | reported (r : Report)
  | unexpected (t : Trap) (problem : String)
  | escaped (t : Trap)

/-- What becomes of a calculation that is halted. -/
def Failure.ofHalt (problem : String) : Halt → Failure
  | .fault f => reported (f.report (some problem))
  | .trap t => if t.isCaught then unexpected t problem else escaped t

/-- The value of a problem, with everything that could trap. -/
def RawEvaluation.evaluate (fn : Elementary) (mode : AngleMode) (places : Int) (answer : Option Double)
    (problem : String) : Except Failure Double :=
  (cleanedValue fn mode places answer (removeBlanks problem.toList)).mapError (Failure.ofHalt problem)

/-! ### The faults of a problem -/

/-- The kinds and codes of the reports about a problem. -/
def calculationReports : List (ReportKind × String) :=
  [(.help, "1000"), (.syntactic, "3100"), (.syntactic, "3101"), (.syntactic, "3102"), (.syntactic, "3103"),
    (.syntactic, "3104"), (.parsing, "3200"), (.parsing, "3201"), (.lexical, "3300"), (.lexical, "3301"),
    (.lexical, "3302")]

/-- The report is one of those about the problem, it names the problem, and it calls for help only if the problem does. -/
structure Report.IsAbout (r : Report) (problem : String) : Prop where
  mem_calculationReports : (r.kind, r.code) ∈ calculationReports
  equation_eq : r.equation = some problem
  of_help : r.kind = .help → removeBlanks problem.toList = ['h', 'e', 'l', 'p']

/-- Whether the fault is one of the text of a problem, and neither a call for help nor about anything else. -/
def Fault.isTextual : Fault → Bool
  | .help _ | .unreadableAnswer _ | .setting _ => false
  | _ => true

private theorem Fault.isAbout_of_isTextual {f : Fault} (h : f.isTextual = true) (problem : String) :
    (f.report (some problem)).IsAbout problem := by
  cases f with
  | help usage => cases h
  | unreadableAnswer text => cases h
  | setting fault => cases h
  | _ => exact ⟨by simp [calculationReports, report, kind, code], rfl, nofun⟩

/-- The computation fails only with textual faults. -/
def FailsTextually {α : Type} (x : Except Fault α) : Prop :=
  ∀ f, x = .error f → f.isTextual = true

section Stages

variable {α β : Type}

private theorem failsTextually_ok (a : α) : FailsTextually (.ok a) :=
  nofun

private theorem failsTextually_error {f : Fault} (h : f.isTextual = true) :
    FailsTextually (.error f : Except Fault α) := by
  rintro g ⟨⟩
  exact h

theorem FailsTextually.bind {x : Except Fault α} {f : α → Except Fault β} (hx : FailsTextually x)
    (hf : ∀ a, FailsTextually (f a)) : FailsTextually (x >>= f) := by
  cases x with
  | error e => exact failsTextually_error (hx e rfl)
  | ok a => exact hf a

theorem FailsTextually.map {x : Except Fault α} (hx : FailsTextually x) (f : α → β) : FailsTextually (x.map f) := by
  cases x with
  | error e => exact failsTextually_error (hx e rfl)
  | ok a => exact failsTextually_ok (f a)

private theorem failsTextually_foldlM {f : β → α → Except Fault β} (hf : ∀ b a, FailsTextually (f b a)) (as : List α)
    (b : β) : FailsTextually (as.foldlM f b) := by
  intro fault h
  obtain ⟨pre, a, post, b', -, -, ha⟩ := foldlM_eq_error_iff.1 h
  exact hf b' a fault ha

private theorem failsTextually_closeParentheses (s : List Char) : FailsTextually (closeParentheses s) := by
  rw [closeParentheses]
  split
  · exact failsTextually_ok _
  · exact failsTextually_error rfl

private theorem failsTextually_literalToken (s : List Char) : FailsTextually (literalToken s) := by
  rw [literalToken]
  split
  · exact failsTextually_error rfl
  · exact failsTextually_ok _

private theorem failsTextually_followedBy (t : Token) (rest : List Char) : FailsTextually (followedBy t rest) := by
  rw [followedBy.eq_def]
  split
  · split
    · exact failsTextually_ok _
    · exact failsTextually_error rfl
  · exact failsTextually_ok _

private theorem failsTextually_readWord (c : Char) (cs : List Char) : FailsTextually (readWord c cs) := by
  rw [readWord]
  split
  · exact failsTextually_followedBy _ _
  · split
    · exact failsTextually_followedBy _ _
    · exact failsTextually_error rfl

/-- A previous answer that is a number or missing is never unreadable. -/
private theorem failsTextually_token (answer : Option Double) :
    FailsTextually (PreviousAnswer.ofOption answer).token := by
  cases answer with
  | none => exact failsTextually_error rfl
  | some x => exact failsTextually_ok _

private theorem failsTextually_readToken (answer : Option Double) (c : Char) (cs : List Char) :
    FailsTextually (readToken (.ofOption answer) c cs) := by
  rw [readToken]
  split
  · exact (failsTextually_literalToken _).map _
  split
  · exact failsTextually_readWord c cs
  split
  · exact failsTextually_ok _
  split
  · exact failsTextually_followedBy _ _
  split
  · exact (failsTextually_token answer).map _
  split
  · exact failsTextually_ok _
  split
  · exact failsTextually_ok _
  split
  · exact failsTextually_ok _
  split
  · exact failsTextually_ok _
  split
  · exact failsTextually_ok _
  · exact failsTextually_error rfl

private theorem failsTextually_scan (answer : Option Double) (cs : List Char) :
    FailsTextually (scan (.ofOption answer) cs) := by
  induction hn : cs.length using Nat.strongRecOn generalizing cs with
  | ind n ih =>
    cases cs with
    | nil =>
      rw [scan]
      exact failsTextually_ok _
    | cons c cs =>
      rw [scan]
      split
      · rename_i fault hread
        exact failsTextually_error (failsTextually_readToken answer c cs fault hread)
      · rename_i t after hread
        have hlt : after.length < n := hn ▸ Nat.lt_succ_of_le (length_of_readToken hread)
        exact (ih _ hlt after rfl).map _

private theorem failsTextually_toPostfix (ts : List Token) : FailsTextually (toPostfix ts) := by
  intro fault h
  rcases toPostfix_eq_error_iff.1 h with ⟨pre, t, post, s, -, -, hstop⟩ | ⟨s, -, hfinish⟩
  · cases hstop <;> rfl
  · rw [(Conversion.finish_eq_error_iff.1 hfinish).1]
    rfl

private theorem failsTextually_evalPostfix (fn : Elementary) (mode : AngleMode) (ts : List Token) :
    FailsTextually (evalPostfix fn mode ts) := by
  have helim : ∀ x : Option (List Double), FailsTextually (x.elim (.error .operandImbalance) .ok) := by
    rintro (_ | stack)
    · exact failsTextually_error rfl
    · exact failsTextually_ok _
  refine (failsTextually_foldlM (fun stack t => ?_) ts []).bind fun stack => ?_
  · cases t with
    | operator op => exact helim _
    | function f => exact helim _
    | number x => exact failsTextually_ok _
    | previous x => exact failsTextually_ok _
    | constant n x => exact failsTextually_ok _
    | _ => exact failsTextually_error rfl
  · split
    · exact failsTextually_ok _
    · exact failsTextually_error rfl

private theorem failsTextually_rawValue (fn : Elementary) (mode : AngleMode) (answer : Option Double)
    (cleaned : List Char) : FailsTextually (rawValue fn mode (.ofOption answer) cleaned) :=
  (failsTextually_closeParentheses cleaned).bind fun balanced =>
    ((failsTextually_scan answer balanced).map _).bind fun tokens =>
      (failsTextually_toPostfix tokens).bind fun postfixed => failsTextually_evalPostfix fn mode postfixed

end Stages

/-! ### All calculations -/

section Evaluate

variable {fn : Elementary} {mode : AngleMode} {places : Int} {answer : Option Double} {problem : String}

/-- A fault of a calculation is reported about its problem. -/
private theorem isAbout_of_evaluate (hplaces : 0 ≤ places) {f : Fault}
    (h : evaluate fn mode places (.ofOption answer) problem = .error f) : (f.report (some problem)).IsAbout problem := by
  rw [evaluate, cleanedValue] at h
  split at h
  · rename_i hhelp
    cases h
    exact ⟨List.mem_cons_self, rfl, fun _ => hhelp⟩
  · split at h
    · cases h
    · refine Fault.isAbout_of_isTextual ?_ problem
      refine ((failsTextually_rawValue fn mode answer _).bind fun x => ?_) f h
      have hround : roundToPlaces x places = .ok (x.roundTo places.toNat) := if_neg (Int.not_lt.2 hplaces)
      rw [hround]
      exact failsTextually_ok _

/-- A calculation meets no trap in any of its stages, and ends with a number or with a report about the problem.  The
report is for help only if the problem is the word for it, so nothing unexpected is ever reported and nothing escapes. -/
theorem evaluate_reports (hfn : fn.Documented) (mode : AngleMode) (hplaces : 0 ≤ places) (answer : Option Double)
    (problem : String) :
    RawEvaluation.cleanedValue fn mode places answer (removeBlanks problem.toList) =
        untrapped (cleanedValue fn mode places (.ofOption answer) (removeBlanks problem.toList)) ∧
      ((∃ x, evaluate fn mode places (.ofOption answer) problem = .ok x ∧
          RawEvaluation.evaluate fn mode places answer problem = .ok x) ∨
        ∃ f, evaluate fn mode places (.ofOption answer) problem = .error f ∧
          RawEvaluation.evaluate fn mode places answer problem = .error (.reported (f.report (some problem))) ∧
          (f.report (some problem)).IsAbout problem) := by
  have huntrapped := RawEvaluation.cleanedValue_eq mode hfn places answer (removeBlanks problem.toList)
  refine ⟨huntrapped, ?_⟩
  have hraw : RawEvaluation.evaluate fn mode places answer problem =
      (untrapped (evaluate fn mode places (.ofOption answer) problem)).mapError (Failure.ofHalt problem) :=
    congrArg _ huntrapped
  rw [hraw]
  cases hvalue : evaluate fn mode places (.ofOption answer) problem with
  | ok x => exact .inl ⟨x, rfl, rfl⟩
  | error f => exact .inr ⟨f, rfl, rfl, isAbout_of_evaluate hplaces hvalue⟩

/-- Zero for finite numbers: the logarithms of one and the inverse tangent of zero. -/
def flatten (x : Double) : Double :=
  if x.isFinite then .zero false else x

/-- Elementary functions with these values. -/
def Elementary.flat : Elementary :=
  ⟨flatten, flatten, flatten, flatten, flatten, flatten, flatten, flatten, flatten, flatten, flatten, flatten,
    fun x _ => flatten x⟩

private theorem Elementary.documented_flat : Elementary.flat.Documented := by
  have hflat : ∀ x, ∃ y, checked flatten x = .ok y := by
    intro x
    cases x <;> exact ⟨_, rfl⟩
  exact ⟨fun x _ _ => hflat x, fun x _ _ => hflat x, hflat⟩

/-- An operand that is missing, after a logarithm and an inverse cotangent: a logarithm of one, and an inverse tangent of
the reciprocal of infinity. -/
theorem evaluate_reports_missing_operand :
    RawEvaluation.evaluate .flat .degrees 10 none "ln(1) + acot(1/0) -" =
      .error (.reported ⟨.parsing, "3200", "Too many operators, Too little operands", some "ln(1) + acot(1/0) -"⟩) := by
  have hfault : evaluate .flat .degrees 10 (.ofOption none) "ln(1) + acot(1/0) -" = .error .operandImbalance := by
    decide +kernel
  have hreports := evaluate_reports Elementary.documented_flat .degrees (by decide : (0 : Int) ≤ 10) none
    "ln(1) + acot(1/0) -"
  rcases hreports.2 with ⟨x, hx, -⟩ | ⟨f, hf, hraw, -⟩
  · rw [hfault] at hx
    cases hx
  · rw [hfault] at hf
    cases hf
    exact hraw

end Evaluate

end DeskCalc
