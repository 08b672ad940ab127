import DeskCalc.Proofs.CommandWords
import DeskCalc.Proofs.GroupedDigits
import DeskCalc.Proofs.Overlay
import DeskCalc.Proofs.WritableResult

/-!
# Answers on the command line

A command line of one word with a value should print the value and nothing else (`CommandLine.Answers`).  Whether it
does depends on three things (`CommandLine.answers_iff`): the word has to be read as an operand, the settings file must
not have unknown keys, about which there are warnings, and the value can be written.

The first one is not a matter of the problem at all.  A negative number is answered, and so is a difference after a
minus sign if there is a space in it (`CommandLine.answers_spaced`); without the space it is taken for an option and
refused (`CommandLine.refuses_unspaced`).
-/

namespace DeskCalc

/-! ### What is shown -/

/-- No numeral has a colon. -/
private theorem colon_not_mem_shownNumeral {base fix : Int} {x : Double} {text : List Char}
    (h : shownNumeral base fix x = .ok text) : ':' ∉ text := by
  obtain ⟨plain, hplain, rfl⟩ := exists_of_map_eq_ok h
  obtain ⟨ws, fs, rfl, hfigures⟩ := hasParts_of_plainNumeral hplain
  have hfigure : ¬IsFigure ':' := by decide
  intro hc
  rcases mem_displayForm hc with hc | hc | hc
  · cases hc
  · cases hc
  · rcases List.mem_append.1 hc with hc | hc
    · exact hfigure (hfigures _ (List.mem_append_left _ hc))
    · split at hc
      · cases hc
      · rcases List.mem_cons.1 hc with hc | hc
        · cases hc
        · exact hfigure (hfigures _ (List.mem_append_right _ hc))

namespace CommandLine

private theorem toList_lines_cons (l : String) (ls : List String) :
    (lines (l :: ls)).toList = l.toList ++ '\n' :: (lines ls).toList := by
  rw [lines, lines, List.map_cons, String.join_cons, String.toList_append, String.toList_append]
  simp

/-- The help is no line with a numeral. -/
private theorem lines_ne_usageHelp {text : List Char} (h : ':' ∉ text) : lines [String.ofList text] ≠ usageHelp := by
  intro heq
  have hcolon : ':' ∈ usageLine.toList := by decide +kernel
  have hhelp : ':' ∈ usageHelp.toList := by
    simp only [usageHelp, String.toList_append, List.mem_append, hcolon, true_or]
  rw [← heq, toList_lines_cons, String.toList_ofList, List.mem_append, List.mem_cons] at hhelp
  rcases hhelp with hc | hc | hc
  · exact h hc
  · cases hc
  · cases hc

/-! ### The log -/

section Log

variable {fn : Elementary} {mode : AngleMode} {places : Int} {previous : PreviousAnswer} {problem : String}
  {e : LogEntry} {log : List LogEntry}

private theorem level_of_mem_log {p : Progress} (h : e ∈ p.log problem places) : e.level = .debug := by
  have hclosing : ∀ balanced, e ∈ p.closingLog balanced → e.level = .debug := by
    intro balanced h
    simp only [Progress.closingLog] at h
    split at h
    · cases h
    · rw [List.mem_singleton.1 h]
  have hresult : ∀ raw, e ∈ Progress.resultLog problem places raw → e.level = .debug := by
    intro raw h
    rw [Progress.resultLog] at h
    split at h
    · rw [List.mem_singleton.1 h]
    · cases h
  simp only [Progress.log, Progress.lexingLog, Progress.conversionLog, Progress.evaluationLog, List.mem_append] at h
  rcases h with ((h | h) | h) | h
  · split at h
    · exact hclosing _ h
    · cases h
  · split at h
    · rw [List.mem_singleton.1 h]
    · cases h
  · split at h
    · rw [List.mem_singleton.1 h]
    · cases h
  · split at h
    · rcases List.mem_append.1 h with h | h
      · rw [List.mem_singleton.1 h]
      · exact hresult _ h
    · cases h

/-- The log of a calculation is for debugging. -/
private theorem level_of_mem_calculationLog (h : e ∈ calculationLog fn mode places previous problem) :
    e.level = .debug := by
  simp only [calculationLog] at h
  split at h
  · cases h
  · exact level_of_mem_log h

private theorem shownLog_of_debug (h : ∀ e ∈ log, e.level = .debug) : shownLog false log = "" := by
  have hnone : log.filter (fun e => false || e.level != .debug) = [] := by
    rw [List.filter_eq_nil_iff]
    intro e he
    simp [h e he]
  rw [shownLog, hnone]
  rfl

/-- Loading settings warns at most. -/
private theorem level_of_mem_loadSettings [Host] {s : Store} {overrides : List (Text × Json)}
    (h : e ∈ (Files.loadSettings s overrides).1) : e.level = .warning := by
  unfold Files.loadSettings at h
  split at h
  · cases h
  · split at h
    · cases h
    · obtain ⟨member, -, rfl⟩ := List.mem_map.1 h
      rfl

/-- Warnings are shown. -/
private theorem shownLog_eq_empty_iff (h : ∀ e ∈ log, e.level = .warning) : shownLog false log = "" ↔ log = [] := by
  refine ⟨fun hempty => ?_, fun hnil => by rw [hnil]; rfl⟩
  have hall : log.filter (fun e => false || e.level != .debug) = log := by
    rw [List.filter_eq_self]
    intro e he
    simp [h e he]
  rw [shownLog, hall] at hempty
  cases log with
  | nil => rfl
  | cons e log =>
    have hlines := congrArg String.toList hempty
    rw [List.map_cons, toList_lines_cons] at hlines
    exact absurd hlines (List.append_ne_nil_of_right_ne_nil _ (List.cons_ne_nil _ _))

end Log

/-! ### Runs -/

/-- A null changes nothing. -/
private theorem loadSettings_of_nulls [Host] {overrides : List (Text × Json)}
    (nulls : ∀ e ∈ overrides, e.2 = .null ∧ (Setting.ofKey? e.1).isSome) (s : Store) :
    Files.loadSettings s overrides = Files.loadSettings s [] := by
  have hnone : effective overrides = [] := by
    rw [effective, List.filter_eq_nil_iff]
    intro e he
    rw [(nulls e he).1]
    exact Bool.false_ne_true
  have hreplace : ∀ c : Settings, c.replace overrides = c.replace [] := by
    intro c
    rw [Settings.replace_of_known fun e he => (nulls e he).2,
      Settings.replace_of_known fun e he => absurd he List.not_mem_nil, hnone]
    rfl
  simp only [Files.loadSettings, hreplace]

/-- The run prints the numeral of a number and nothing else. -/
def Answers (r : CommandRun) (c : Settings) (x : Double) : Prop :=
  ∃ numeral, shownNumeral c.base c.fix x = .ok numeral ∧ r = ⟨lines [String.ofList numeral], [], .exit 0⟩

variable {fn : Elementary} {s : Store} {log : List LogEntry} {c : Settings} {problem : String} {x : Double}

private theorem answers_answer_iff (accepted : value fn c problem = .ok x) :
    Answers (answer fn c problem) c x ↔ Writable c x := by
  constructor
  · rintro ⟨numeral, hnumeral, -⟩
    obtain ⟨text, htext, -⟩ := exists_of_map_eq_ok hnumeral
    exact exists_plainNumeral_iff.1 ⟨text, htext⟩
  · intro hwritable
    obtain ⟨text, htext⟩ := hwritable.exists_numeral
    exact ⟨displayForm text, shownNumeral_eq htext, answer_of_ok accepted htext⟩

private theorem answers_after_iff {errors : Text} {r : CommandRun} :
    Answers (after errors r) c x ↔ errors = [] ∧ Answers r c x := by
  obtain ⟨output, later, ending⟩ := r
  simp only [Answers, after, CommandRun.mk.injEq, List.append_eq_nil_iff]
  tauto

/-- Without options the settings are those of the settings file. -/
private theorem loadSettings_empty [Host] (s : Store) :
    Files.loadSettings s Arguments.empty.overrides = Files.loadSettings s [] := by
  refine loadSettings_of_nulls (fun e he => ?_) s
  simp only [Arguments.overrides, List.mem_cons, List.not_mem_nil, or_false] at he
  rcases he with rfl | rfl | rfl
  · exact ⟨rfl, by decide⟩
  · exact ⟨rfl, by decide⟩
  · exact ⟨rfl, by decide⟩

/-- With a problem, and not on demand of all entries, nothing is printed but the answer. -/
private theorem runWith_of_problem {a : Arguments} (problem_eq : a.problem = some problem) (ne : problem ≠ "")
    (quiet : a.debug = false) : runWith fn s a c = answer fn c problem := by
  have hlog : shownLog false (calculationLog fn (.ofRadians c.radianMode) c.fix (.value (Double.zero false)) problem)
      = "" := shownLog_of_debug fun e he => level_of_mem_calculationLog he
  have hloaded : ∀ text, shownLog false [⟨.debug, .program, text⟩] = "" := fun text =>
    shownLog_of_debug fun e he => by rw [List.mem_singleton.1 he]
  rw [runWith, problem_eq, quiet]
  dsimp only [Option.getD_some]
  split
  · exact absurd rfl ne
  · rw [hloaded, hlog]
    rfl

/-- Without a problem the window is opened or files are missing. -/
private theorem ending_runWith_ne {a : Arguments} (h : a.problem = none) : (runWith fn s a c).ending ≠ .exit 0 := by
  rw [runWith, h]
  dsimp only [Option.getD_none, after]
  split
  · rw [openWindow]
    cases missingFiles s with
    | nil => simp
    | cons name names => simp
  · exact absurd rfl ‹"" = "" → False›

private theorem ending_runArguments_ne [Host] {a : Arguments} (h : a.problem = none) :
    (runArguments fn s a).ending ≠ .exit 0 := by
  rw [runArguments]
  dsimp only [after]
  split
  · exact ending_runWith_ne h
  · split <;> simp

/-- An operand is answered after the warnings about the settings. -/
private theorem run_of_isOperand [Host] (ne : problem ≠ "") (loads : Files.loadSettings s [] = (log, .ok c))
    (operand : CommandWord.IsOperand problem.toList) :
    run fn s [problem] = after (shownLog false log) (answer fn c problem) := by
  have hload : Files.loadSettings s { Arguments.empty with problem := some problem }.overrides = (log, .ok c) :=
    (loadSettings_empty s).trans loads
  rw [run, Arguments.ofTexts_of_isOperand operand]
  dsimp only [runArguments]
  rw [hload]
  dsimp only
  rw [runWith_of_problem rfl ne rfl]
  rfl

/-- Any other word is not answered. -/
private theorem not_answers_of_not_isOperand [Host] (h : ¬CommandWord.IsOperand problem.toList) :
    ¬Answers (run fn s [problem]) c x := by
  rintro ⟨numeral, hnumeral, hrun⟩
  rw [run] at hrun
  split at hrun
  · rename_i a ha
    exact ending_runArguments_ne (Arguments.problem_of_not_isOperand h ha) (congrArg CommandRun.ending hrun)
  · exact lines_ne_usageHelp (colon_not_mem_shownNumeral hnumeral) (congrArg CommandRun.output hrun).symm
  · cases congrArg CommandRun.ending hrun

/-- Where the settings file gives settings under which a problem has a value, the command line of the problem alone
prints the value and nothing else exactly if the problem is read as an operand, there are no warnings about the
settings file, and the value can be written. -/
theorem answers_iff [Host] (fn : Elementary) (s : Store) {log : List LogEntry} {c : Settings} {problem : String}
    {x : Double} (ne : problem ≠ "") (loads : Files.loadSettings s [] = (log, .ok c))
    (accepted : value fn c problem = .ok x) :
    Answers (run fn s [problem]) c x ↔ CommandWord.IsOperand problem.toList ∧ log = [] ∧ Writable c x := by
  by_cases operand : CommandWord.IsOperand problem.toList
  · have hwarnings : ∀ e ∈ log, e.level = .warning := by
      intro e he
      have hlog : (Files.loadSettings s []).1 = log := congrArg Prod.fst loads
      exact level_of_mem_loadSettings (hlog ▸ he)
    have hsilent : Text.ofString (shownLog false log) = [] ↔ log = [] := by
      rw [← shownLog_eq_empty_iff hwarnings]
      exact Text.ofString_inj (t := "")
    rw [run_of_isOperand ne loads operand, answers_after_iff, hsilent, answers_answer_iff accepted]
    exact (and_iff_right operand).symm
  · exact iff_of_false (not_answers_of_not_isOperand operand) fun h => operand h.1

/-- Three less two, with a space. -/
theorem answers_spaced :
    let s : Store := ⟨"", []⟩
    let c : Settings := ⟨10, 10, false, false, true, false, by decide, by decide⟩
    let problem := String.ofList ['-', '2', ' ', '+', '3']
    problem ≠ "" ∧ Files.loadSettings s [] = ([], .ok c) ∧ value .platform c problem = .ok (.ofNat 1) ∧
      Answers (run .platform s [problem]) c (.ofNat 1) := by
  intro s c problem
  have ne : problem ≠ "" := by decide +kernel
  have loads : Files.loadSettings s [] = ([], .ok c) := rfl
  have accepted : value .platform c problem = .ok (.ofNat 1) := by decide +kernel
  have operand : CommandWord.IsOperand problem.toList := by
    rw [String.toList_ofList]
    exact .spaced (by decide) (by rw [CommandWord.NamesOption, if_neg (by decide)]; decide +kernel)
  exact ⟨ne, loads, accepted,
    (answers_iff .platform s ne loads accepted).2 ⟨operand, rfl, fun _ _ => by decide⟩⟩

/-- Three less two, without a space: the problem has a value and is refused. -/
theorem refuses_unspaced :
    let s : Store := ⟨"", []⟩
    let c : Settings := ⟨10, 10, false, false, true, false, by decide, by decide⟩
    let problem := String.ofList ['-', '2', '+', '3']
    Files.loadSettings s [] = ([], .ok c) ∧ value .platform c problem = .ok (.ofNat 1) ∧
      run .platform s [problem] = ⟨"", usageError (.unrecognized [problem]), .exit 2⟩ ∧
      ¬Answers (run .platform s [problem]) c (.ofNat 1) := by
  intro s c problem
  have hwords : Arguments.ofTexts [problem] = .error (.fault (.unrecognized [problem])) := by decide +kernel
  have hrun : run .platform s [problem] = ⟨"", usageError (.unrecognized [problem]), .exit 2⟩ := by
    rw [run, hwords]
  refine ⟨rfl, by decide +kernel, hrun, ?_⟩
  rw [hrun]
  rintro ⟨numeral, -, h⟩
  cases congrArg CommandRun.ending h

end CommandLine

end DeskCalc
