import CommittedRegex.Proofs.CommandLine.Reports

/-! # Inputs and cases

Whether a session matches inputs or checks cases is found in what the arguments stand for, not in the
arguments. The lines of the standard input take the place of the first mark, and if nothing is there in
the end then the cases are checked. Marks alone leave nothing when the standard input is empty. -/
namespace CommittedRegex.CommandLine
open Text

/-- The texts are the arguments with the lines in place of the first mark and nothing in place of the
others. -/
def IsExpansion (ls arguments texts : List String) : Prop :=
  inputMark ∉ arguments ∧ texts = arguments ∨
    ∃ before after, arguments = before ++ inputMark :: after ∧ inputMark ∉ before ∧
      texts = before ++ ls ++ after.filter (· ≠ inputMark)

/-- No match of the texts comes to a step limit. -/
def Uncut (config : Config) (e : Expr) (texts : List String) : Prop :=
  ∀ text ∈ texts, ∀ limit, config.findEnd e text ≠ .error (.stepLimitExceeded limit)

section

variable {ls arguments texts : List String} {config : Config} {e : Expr}

theorem expand_nil (arguments : List String) : expand [] arguments = arguments.filter (· ≠ inputMark) := by
  induction arguments with
  | nil => rfl
  | cons argument rest ih =>
    rw [expand]
    by_cases hmark : argument = inputMark <;> simp [hmark, ih]

theorem isExpansion_expand (ls arguments : List String) : IsExpansion ls arguments (expand ls arguments) := by
  induction arguments with
  | nil => exact Or.inl ⟨List.not_mem_nil, rfl⟩
  | cons argument rest ih =>
    rw [expand]
    by_cases hmark : argument = inputMark
    · rw [if_pos hmark, hmark, expand_nil]
      exact Or.inr ⟨[], rest, rfl, List.not_mem_nil, rfl⟩
    · rw [if_neg hmark]
      rcases ih with ⟨hnone, heq⟩ | ⟨before, after, rfl, hbefore, heq⟩
      · refine Or.inl ⟨?_, by rw [heq]⟩
        exact List.not_mem_cons_of_ne_of_not_mem (Ne.symm hmark) hnone
      · refine Or.inr ⟨argument :: before, after, rfl, ?_, by rw [heq]; rfl⟩
        exact List.not_mem_cons_of_ne_of_not_mem (Ne.symm hmark) hbefore

/-- The texts are no texts at all only if there are just marks and no lines. -/
theorem IsExpansion.eq_nil_iff (h : IsExpansion ls arguments texts) (hne : arguments ≠ []) :
    texts = [] ↔ ls = [] ∧ ∀ argument ∈ arguments, argument = inputMark := by
  rcases h with ⟨hnone, rfl⟩ | ⟨before, after, rfl, hbefore, rfl⟩
  · constructor
    · exact fun hnil => absurd hnil hne
    · rintro ⟨-, hall⟩
      obtain ⟨argument, hargument⟩ := List.exists_mem_of_ne_nil _ hne
      exact absurd (hall argument hargument ▸ hargument) hnone
  · have hstart : (∀ argument ∈ before, argument = inputMark) ↔ before = [] := by
      constructor
      · intro hall
        apply List.eq_nil_iff_forall_not_mem.mpr
        exact fun argument hargument => hbefore (hall argument hargument ▸ hargument)
      · rintro rfl
        exact nofun
    simp only [List.append_eq_nil_iff, List.filter_eq_nil_iff, List.forall_mem_append, List.forall_mem_cons,
      hstart, decide_eq_true_eq, not_not, true_and]
    rw [and_assoc, and_left_comm]

theorem inputs_eq_expand {surroundings : Surroundings} {text : String}
    (htext : String.fromUTF8? surroundings.input = some text) (arguments : List String) :
    surroundings.inputs arguments = .ok (expand (lines text) arguments) := by
  rw [Surroundings.inputs]
  split
  case isTrue hmark => rw [htext]
  case isFalse hmark =>
    rw [List.contains_iff_mem] at hmark
    rcases isExpansion_expand (lines text) arguments with ⟨-, heq⟩ | ⟨before, after, rfl, -⟩
    · rw [heq]
    · simp at hmark

/-- Matches that are not cut have their outcomes. -/
theorem exists_outcomes_of_uncut (hfinite : config.zeroWidth = .guard ∨ config.maxSteps ≠ none)
    (huncut : Uncut config e texts) : ∃ matched, outcomes config e texts = .ok matched := by
  cases houtcomes : outcomes config e texts with
  | ok matched => exact ⟨matched, rfl⟩
  | error failed =>
    obtain ⟨before, after, rfl, -, hfailed⟩ := outcomes_eq_error_iff.mp houtcomes
    rcases isMatch_cases_of_guard_or_limit hfinite e failed.input with ⟨outcome, houtcome⟩ | ⟨limit, -, hcut⟩
    · cases houtcome.symm.trans hfailed
    · exact absurd (isMatch_eq_error_iff.mp hcut) (huncut failed.input (by simp) limit)

/-- If there is a text to match then the cases do not matter. -/
theorem report_eq_of_ne_nil (hne : texts ≠ []) (cases : List Case) :
    report config e cases texts = (outcomes config e texts).map (Report.ofInputs texts) :=
  if_neg (mt List.isEmpty_iff.mp hne)

end

/-- A session with inputs tells of what they stand for, line by line, whatever the cases are. Only if the
inputs are all marks and the standard input is empty do they stand for nothing; then it tells of the
cases instead. -/
theorem inputs_stand_before_cases {surroundings : Surroundings} {disk : Disk} {arguments : List String}
    {options : Options} {file : PatternFile} {config : Config} {e : Expr} {text : String}
    (hload : Loads surroundings disk arguments options file) (hshow : options.showPattern = false)
    (hinputs : options.inputs ≠ []) (he : file.pattern.toExpr = .ok e)
    (hsettings : options.settings file.config surroundings.overrides = config)
    (haccepted : ¬ (config.zeroWidth = .faithful ∧ config.maxSteps = none))
    (htext : String.fromUTF8? surroundings.input = some text) :
    ∃ ls texts, HasLines text.toList ls ∧ IsExpansion ls options.inputs texts ∧
      (texts = [] ↔ text = "" ∧ ∀ argument ∈ options.inputs, argument = inputMark) ∧
      (Uncut config e (matchedTexts file texts) → ∃ report log,
        runOn surroundings disk arguments = delivery disk options log report ∧
        (texts ≠ [] → TellsInputs config e texts report ∧
          ∀ cases, CommandLine.report config e cases texts = .ok report) ∧
        (texts = [] → ∃ verdicts passed failed,
          TellsCases config e file.cases report verdicts passed failed)) := by
  have hexpansion := isExpansion_expand (lines text) options.inputs
  refine ⟨lines text, expand (lines text) options.inputs, lines_eq_iff.mp rfl, hexpansion, ?_, ?_⟩
  · rw [hexpansion.eq_nil_iff hinputs, lines_eq_nil_iff]
  · intro huncut
    have hfinite : config.zeroWidth = .guard ∨ config.maxSteps ≠ none := by
      cases hpolicy : config.zeroWidth with
      | guard => exact Or.inl rfl
      | faithful => exact Or.inr fun hnone => haccepted ⟨hpolicy, hnone⟩
    obtain ⟨matched, hmatched⟩ := exists_outcomes_of_uncut hfinite huncut
    obtain ⟨report, hreport⟩ : ∃ report,
        CommandLine.report config e file.cases (expand (lines text) options.inputs) = .ok report := by
      rw [report_eq_map, hmatched]
      exact ⟨_, rfl⟩
    have hanswer := answer_eq_ok_iff.mpr ⟨e, he, hreport⟩
    obtain ⟨other, hother, htellsInputs, htellsCases⟩ := tells_of_answer hanswer
    obtain rfl : e = other := Except.ok.inj (he.symm.trans hother)
    obtain ⟨log, hrun⟩ := check_run_eq_answer (inputs_eq_expand htext options.inputs) hsettings haccepted
    rw [hanswer, ← hload.runOn_of_matches hshow] at hrun
    refine ⟨report, log, hrun, fun hne => ⟨htellsInputs hne, fun cases => ?_⟩, htellsCases⟩
    rw [report_eq_of_ne_nil hne, ← hreport, report_eq_of_ne_nil hne]

/-- A pattern file that matches nothing, with a case that it does not pass. -/
private def doubtful : String := "pattern=\"empty\"\n[[case]]\ninput=\"b\"\nexpect=true\n"

private theorem parse_doubtful :
    PatternFile.parse doubtful = .ok { pattern := .empty, cases := [⟨"b", true⟩] } := by
  have htext : doubtful.toList =
      ['p', 'a', 't', 't', 'e', 'r', 'n', '=', '"', 'e', 'm', 'p', 't', 'y', '"', '\n',
        '[', '[', 'c', 'a', 's', 'e', ']', ']', '\n', 'i', 'n', 'p', 'u', 't', '=', '"', 'b', '"', '\n',
        'e', 'x', 'p', 'e', 'c', 't', '=', 't', 'r', 'u', 'e', '\n'] := rfl
  have htoml : Toml.ofText? doubtful = some [("pattern", .string "empty"),
      ("case", .array .headers [.table [("input", .string "b"), ("expect", .boolean true)]])] := by
    rw [Toml.ofText?, htext]
    rfl
  exact PatternFile.parse_of_document htoml rfl

/-- A mark and an empty standard input: the case is checked, and the status is about it. -/
theorem empty_input_checks_cases :
    ∃ (report : Report) (log : String),
      runOn {} ⟨.directory [("p", .file doubtful.toUTF8)], []⟩ ["p", "-"] =
        ({ status := report.status, output := report.text, messages := log },
          ⟨.directory [("p", .file doubtful.toUTF8)], []⟩) ∧
      lines report.text = ["FAILED " ++ caseDetail ⟨"b", true⟩ false, "0 passed, 1 failed"] ∧
      report.status.code = 1 := by
  have hoptions : Options.ofArguments ["p", "-"] = .ok { patternFile := some "p", inputs := ["-"] } := rfl
  have hpattern : Definition.toExpr .empty = .ok .empty := Definition.toExpr_eq_ok_iff.mpr rfl
  obtain ⟨ls, texts, -, -, hnil, hreport⟩ := @inputs_stand_before_cases {} _ _ _ _ {} _ ""
    (loads_of_parse hoptions rfl rfl parse_doubtful) rfl (by simp) hpattern rfl (by simp)
    (fromUTF8?_toUTF8 "")
  have hall : ∀ argument ∈ ["-"], argument = inputMark := by simp [inputMark]
  obtain ⟨report, log, hrun, -, hcases⟩ := hreport fun text _ limit => by simp [findEnd_default]
  obtain ⟨verdicts, passed, failed, htells⟩ := hcases (hnil.mpr ⟨rfl, hall⟩)
  have hmiss : ¬ AsExpected {} .empty ⟨"b", true⟩ := by
    rw [AsExpected, Consumes, findEnd_default]
    decide +kernel
  obtain ⟨line, _, htold, hrest, rfl⟩ := List.forall₂_cons_left_iff.mp htells.told
  obtain rfl := List.forall₂_nil_left_iff.mp hrest
  obtain rfl := (htold.resolve_left fun h => hmiss h.1).2
  obtain rfl : failed = 1 := htells.countFailed.symm.trans (by simp [beginsWith, List.isPrefixOf])
  obtain rfl : passed = 0 := Nat.succ.inj htells.total
  exact ⟨report, log, hrun, htells.lines, htells.mismatch.mpr Nat.one_ne_zero⟩

end CommittedRegex.CommandLine
