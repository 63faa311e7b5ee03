import CommittedRegex.Proofs.CommandLine.Session
import CommittedRegex.Proofs.Machine.Limit
import CommittedRegex.Proofs.Text.Lines
import Mathlib.Data.List.Forall2

/-! # What a report says

A report has a line for each text that was matched, in order, and its status sums them up. There is no
report if a match fails, and then the first one that does is named. -/
namespace CommittedRegex.CommandLine
open Text

/-- The match takes up the whole of the text. -/
def Consumes (config : Config) (e : Expr) (text : String) : Prop :=
  config.findEnd e text = .ok (some text.utf8ByteSize)

/-! ## The outcomes of several matches -/

section Outcomes

variable {config : Config} {e : Expr} {text : String} {texts : List String}

/-- The match of the text ends somewhere, and the outcome says whether that is the end of the text. -/
def HasOutcome (config : Config) (e : Expr) (text : String) (outcome : Bool) : Prop :=
  ∃ stop, config.findEnd e text = .ok stop ∧ (stop == some text.utf8ByteSize) = outcome

theorem isMatch_eq_ok_iff {outcome : Bool} :
    config.isMatch e text = .ok outcome ↔ HasOutcome config e text outcome := by
  unfold Config.isMatch HasOutcome
  cases config.findEnd e text <;> simp [Except.map]

theorem consumes_iff_of_isMatch {matched : Bool} (h : config.isMatch e text = .ok matched) :
    matched = true ↔ Consumes config e text := by
  obtain ⟨stop, hstop, rfl⟩ := isMatch_eq_ok_iff.mp h
  simp [Consumes, hstop]

theorem isMatch_eq_error_iff {error : MatchError} :
    config.isMatch e text = .error error ↔ config.findEnd e text = .error error := by
  unfold Config.isMatch
  cases config.findEnd e text <;> simp [Except.map]

/-- Under the guard or with a limit a match has an outcome, or it comes to its limit. -/
theorem isMatch_cases_of_guard_or_limit (hfinite : config.zeroWidth = .guard ∨ config.maxSteps ≠ none)
    (e : Expr) (text : String) : (∃ outcome, config.isMatch e text = .ok outcome) ∨
      ∃ limit, config.maxSteps = some limit ∧
        config.isMatch e text = .error (.stepLimitExceeded limit) := by
  have hends : config.Ends e text := ends_of_guard_or_limit hfinite
  obtain ⟨steps, last, -, ⟨-, -, hend⟩ | ⟨hlimit, hcut⟩⟩ := hends
  · exact .inl ⟨_, by rw [Config.isMatch, hend]; rfl⟩
  · exact .inr ⟨steps, hlimit, isMatch_eq_error_iff.mpr hcut⟩

/-- The outcomes of the texts, each with the text that it belongs to. -/
theorem outcomes_eq_ok_iff {matched : List Bool} : outcomes config e texts = .ok matched ↔
    List.Forall₂ (fun text outcome => config.isMatch e text = .ok outcome) texts matched := by
  induction texts generalizing matched with
  | nil => simp [outcomes, eq_comm]
  | cons text rest ih =>
    rw [outcomes, List.forall₂_cons_left_iff]
    cases htext : config.isMatch e text with
    | error error => simp
    | ok outcome =>
      simp only [Except.ok.injEq, ← ih, ↓existsAndEq, true_and]
      cases outcomes config e rest with
      | error failed => simp [Except.map]
      | ok others => simp [Except.map, eq_comm]

theorem exists_outcome_of_mem {matched : List Bool} (h : outcomes config e texts = .ok matched)
    (htext : text ∈ texts) : ∃ outcome, config.isMatch e text = .ok outcome := by
  rw [outcomes_eq_ok_iff] at h
  have hboth : List.Forall₂ (fun text outcome => (∃ outcome, config.isMatch e text = .ok outcome) ∧
      config.isMatch e text = .ok outcome) texts matched :=
    h.imp fun text outcome houtcome => ⟨⟨outcome, houtcome⟩, houtcome⟩
  exact ((List.forall₂_and_left _ _).mp hboth).1 text htext

/-- The first text whose match fails is the one that is named. -/
theorem outcomes_eq_error_iff {failed : FailedMatch} : outcomes config e texts = .error failed ↔
    ∃ before after, texts = before ++ failed.input :: after ∧
      (∀ text ∈ before, ∃ matched, config.isMatch e text = .ok matched) ∧
      config.isMatch e failed.input = .error failed.error := by
  induction texts with
  | nil => simp [outcomes]
  | cons text rest ih =>
    rw [outcomes]
    cases htext : config.isMatch e text with
    | error error =>
      constructor
      · intro h
        obtain rfl := Except.error.inj h
        exact ⟨[], rest, rfl, by simp, htext⟩
      · rintro ⟨before, after, hsplit, hbefore, hfailed⟩
        cases before with
        | nil =>
          obtain ⟨rfl, rfl⟩ := List.cons.inj hsplit
          rw [htext, Except.error.injEq] at hfailed
          rw [hfailed]
        | cons first before =>
          obtain ⟨rfl, rfl⟩ := List.cons.inj hsplit
          obtain ⟨matched, hmatched⟩ := hbefore text List.mem_cons_self
          simp [htext] at hmatched
    | ok outcome =>
      have hmap : (outcomes config e rest).map (outcome :: ·) = .error failed ↔
          outcomes config e rest = .error failed := by
        cases outcomes config e rest <;> simp [Except.map]
      rw [hmap, ih]
      constructor
      · rintro ⟨before, after, rfl, hbefore, hfailed⟩
        refine ⟨text :: before, after, rfl, ?_, hfailed⟩
        exact List.forall_mem_cons.mpr ⟨⟨outcome, htext⟩, hbefore⟩
      · rintro ⟨before, after, hsplit, hbefore, hfailed⟩
        cases before with
        | nil =>
          obtain ⟨rfl, rfl⟩ := List.cons.inj hsplit
          simp [htext] at hfailed
        | cons first before =>
          obtain ⟨rfl, rfl⟩ := List.cons.inj hsplit
          exact ⟨before, after, rfl, (List.forall_mem_cons.mp hbefore).2, hfailed⟩

end Outcomes

/-! ## Lines -/

theorem forall_mem_zipWith {α β γ : Type} {f : α → β → γ} {p : γ → Prop} (h : ∀ a b, p (f a b))
    (as : List α) (bs : List β) : ∀ c ∈ List.zipWith f as bs, p c := by
  induction as generalizing bs with
  | nil => simp
  | cons a as ih =>
    cases bs with
    | nil => simp
    | cons b bs => exact List.forall_mem_cons.mpr ⟨h a b, ih bs⟩

theorem forall₂_zipWith {α β γ : Type} {R : α → β → Prop} {S : α → γ → Prop} {f : α → β → γ}
    {as : List α} {bs : List β} (h : List.Forall₂ R as bs) (hf : ∀ a b, R a b → S a (f a b)) :
    List.Forall₂ S as (List.zipWith f as bs) := by
  induction h with
  | nil => exact .nil
  | cons hfirst _ ih => exact .cons (hf _ _ hfirst) ih

/-- The line of an input without its end. -/
def inputVerdict (input : String) (matched : Bool) : String :=
  Report.describe matched ++ " " ++ quoted input

/-- What the line of a case says after its verdict. -/
def caseDetail (c : Case) (matched : Bool) : String :=
  quoted c.input ++ " (expected " ++ Report.describe c.expect ++ ", got " ++ Report.describe matched ++ ")"

/-- The line of a case without its end. -/
def caseVerdict (c : Case) (matched : Bool) : String :=
  (if matched = c.expect then "ok " else "FAILED ") ++ caseDetail c matched

def summaryLine (passed failed : Nat) : String :=
  toString passed ++ " passed, " ++ toString failed ++ " failed"

theorem not_mem_describe (matched : Bool) : '\n' ∉ (Report.describe matched).toList := by
  cases matched <;> decide

theorem isLine_inputVerdict (input : String) (matched : Bool) : IsLine (inputVerdict input matched) := by
  apply isLine_append _ (isLine_quoted input) (by simp [← String.toList_inj, quotedChars])
  simp [not_mem_describe]

theorem isLine_caseVerdict (c : Case) (matched : Bool) : IsLine (caseVerdict c matched) := by
  have hmark : '\n' ∉ (if matched = c.expect then "ok " else "FAILED ").toList := by split <;> decide
  rw [caseVerdict, caseDetail, ← String.append_assoc]
  apply isLine_append _ (by decide : IsLine ")") (by decide)
  simp [hmark, not_mem_describe, not_mem_quoted, -toList_quoted]

theorem isLine_summaryLine (passed failed : Nat) : IsLine (summaryLine passed failed) := by
  have hdigits (n : Nat) : '\n' ∉ (toString n).toList := by
    simpa using not_mem_toDigits (by decide) (by decide) n
  apply isLine_append _ (by decide : IsLine " failed") (by decide)
  simp only [String.toList_append, List.mem_append, not_or]
  exact ⟨⟨hdigits passed, by decide⟩, hdigits failed⟩

theorem text_ofInputs (inputs : List String) (matched : List Bool) : (Report.ofInputs inputs matched).text =
    String.join ((List.zipWith inputVerdict inputs matched).map (· ++ "\n")) := by
  rw [List.map_zipWith]
  rfl

theorem lines_ofInputs (inputs : List String) (matched : List Bool) :
    lines (Report.ofInputs inputs matched).text = List.zipWith inputVerdict inputs matched := by
  rw [text_ofInputs, lines_join (forall_mem_zipWith isLine_inputVerdict inputs matched)]

/-- The lines of a report on cases: one for each case, then the summary. -/
def caseLines (cases : List Case) (matched : List Bool) : List String :=
  List.zipWith caseVerdict cases matched ++
    [summaryLine (cases.length - Report.failures cases matched) (Report.failures cases matched)]

theorem text_ofCases (cases : List Case) (matched : List Bool) :
    (Report.ofCases cases matched).text = String.join ((caseLines cases matched).map (· ++ "\n")) := by
  have hcase (c : Case) (outcome : Bool) : Report.caseLine c outcome = caseVerdict c outcome ++ "\n" := by
    simp only [Report.caseLine, caseVerdict, caseDetail, String.append_assoc]
    split <;> rfl
  have hsummary (total failed : Nat) :
      Report.summary total failed = summaryLine (total - failed) failed ++ "\n" := by
    simp only [Report.summary, summaryLine, String.append_assoc]
    rfl
  rw [caseLines, List.map_append, List.map_zipWith, String.join_append]
  simp [Report.ofCases, hsummary, funext fun c => funext (hcase c)]

theorem lines_ofCases (cases : List Case) (matched : List Bool) :
    lines (Report.ofCases cases matched).text = caseLines cases matched := by
  rw [text_ofCases, lines_join]
  intro line hline
  rcases List.mem_append.mp hline with hcase | hlast
  · exact forall_mem_zipWith isLine_caseVerdict cases matched line hcase
  · exact List.mem_singleton.mp hlast ▸ isLine_summaryLine _ _

/-- A success exactly if `p` is true has the code 0 then, and the code 1 otherwise. -/
theorem code_ite (p : Prop) [Decidable p] :
    ((if p then Status.success else .mismatch).code = 0 ↔ p) ∧
      ((if p then Status.success else .mismatch).code = 1 ↔ ¬ p) := by
  by_cases h : p <;> simp [h, Status.code]

/-! ## Reports on inputs -/

/-- The line says whether the match takes up the whole input. -/
def TellsInput (config : Config) (e : Expr) (input line : String) : Prop :=
  Consumes config e input ∧ line = "match " ++ quoted input ∨
    ¬ Consumes config e input ∧ line = "no match " ++ quoted input

/-- There is one line for each input, and the status says whether every match is whole. -/
structure TellsInputs (config : Config) (e : Expr) (inputs : List String) (report : Report) : Prop where
  ended : report.text = String.join ((lines report.text).map (· ++ "\n"))
  lines : List.Forall₂ (TellsInput config e) inputs (lines report.text)
  success : report.status.code = 0 ↔ ∀ input ∈ inputs, Consumes config e input
  mismatch : report.status.code = 1 ↔ ∃ input ∈ inputs, ¬ Consumes config e input

section

variable {config : Config} {e : Expr} {inputs : List String} {cases : List Case} {matched : List Bool}

theorem tellsInput_of_isMatch {input : String} {outcome : Bool} (h : config.isMatch e input = .ok outcome) :
    TellsInput config e input (inputVerdict input outcome) := by
  have hconsumes := consumes_iff_of_isMatch h
  cases outcome with
  | true => exact Or.inl ⟨hconsumes.mp rfl, rfl⟩
  | false => exact Or.inr ⟨fun hwhole => Bool.false_ne_true (hconsumes.mpr hwhole), rfl⟩

theorem all_iff_consumes
    (h : List.Forall₂ (fun text outcome => config.isMatch e text = .ok outcome) inputs matched) :
    matched.all id = true ↔ ∀ input ∈ inputs, Consumes config e input := by
  induction h with
  | nil => simp
  | cons hfirst _ ih => simp [ih, consumes_iff_of_isMatch hfirst]

theorem tellsInputs_ofInputs
    (h : List.Forall₂ (fun text outcome => config.isMatch e text = .ok outcome) inputs matched) :
    TellsInputs config e inputs (Report.ofInputs inputs matched) := by
  have hall := all_iff_consumes h
  obtain ⟨hsuccess, hmismatch⟩ := code_ite (matched.all id = true)
  refine ⟨?_, ?_, hsuccess.trans hall, hmismatch.trans ?_⟩
  · rw [lines_ofInputs, text_ofInputs]
  · rw [lines_ofInputs]
    exact forall₂_zipWith h fun _ _ => tellsInput_of_isMatch
  · rw [hall]
    simp

/-! ## Reports on cases -/

/-- The outcome of the case is the expected one. -/
def AsExpected (config : Config) (e : Expr) (c : Case) : Prop :=
  c.expect = true ↔ Consumes config e c.input

/-- The line says whether the outcome of the case is the expected one. -/
def TellsCase (config : Config) (e : Expr) (c : Case) (line : String) : Prop :=
  AsExpected config e c ∧ line = "ok " ++ caseDetail c c.expect ∨
    ¬ AsExpected config e c ∧ line = "FAILED " ++ caseDetail c (!c.expect)

def beginsWith (start line : String) : Bool := start.toList.isPrefixOf line.toList

/-- There is one line for each case, then a summary that counts the lines of each kind, and the status says
whether all cases are as expected. -/
structure TellsCases (config : Config) (e : Expr) (cases : List Case) (report : Report)
    (verdicts : List String) (passed failed : Nat) : Prop where
  ended : report.text = String.join ((lines report.text).map (· ++ "\n"))
  lines : lines report.text = verdicts ++ [summaryLine passed failed]
  told : List.Forall₂ (TellsCase config e) cases verdicts
  countPassed : verdicts.countP (beginsWith "ok") = passed
  countFailed : verdicts.countP (beginsWith "FAILED") = failed
  total : passed + failed = cases.length
  success : report.status.code = 0 ↔ failed = 0
  mismatch : report.status.code = 1 ↔ failed ≠ 0

theorem asExpected_iff {c : Case} {outcome : Bool} (h : config.isMatch e c.input = .ok outcome) :
    AsExpected config e c ↔ outcome = c.expect := by
  rw [AsExpected, ← consumes_iff_of_isMatch h, ← Bool.eq_iff_iff, eq_comm]

theorem tellsCase_of_isMatch {c : Case} {outcome : Bool} (h : config.isMatch e c.input = .ok outcome) :
    TellsCase config e c (caseVerdict c outcome) := by
  rw [TellsCase, asExpected_iff h, caseVerdict]
  by_cases hsame : outcome = c.expect
  · exact Or.inl ⟨hsame, by rw [if_pos hsame, hsame]⟩
  · exact Or.inr ⟨hsame, by rw [if_neg hsame, Bool.eq_not.mpr hsame]⟩

theorem beginsWith_ok_caseVerdict (c : Case) (outcome : Bool) :
    beginsWith "ok" (caseVerdict c outcome) = (outcome == c.expect) := by
  rw [caseVerdict, beginsWith]
  by_cases hsame : outcome = c.expect <;> simp [hsame, List.isPrefixOf]

theorem beginsWith_failed_caseVerdict (c : Case) (outcome : Bool) :
    beginsWith "FAILED" (caseVerdict c outcome) = (outcome != c.expect) := by
  rw [caseVerdict, beginsWith]
  by_cases hsame : outcome = c.expect <;> simp [hsame, List.isPrefixOf]

theorem failures_cons (c : Case) (outcome : Bool) (cases : List Case) (matched : List Bool) :
    Report.failures (c :: cases) (outcome :: matched) =
      Report.failures cases matched + if outcome = c.expect then 0 else 1 := by
  by_cases hsame : outcome = c.expect <;> simp [Report.failures, List.count_cons, hsame]

/-- Each case is counted once, under its own verdict. -/
theorem countP_caseVerdict
    (h : List.Forall₂ (fun c outcome => config.isMatch e c.input = .ok outcome) cases matched) :
    (List.zipWith caseVerdict cases matched).countP (beginsWith "FAILED") = Report.failures cases matched ∧
      (List.zipWith caseVerdict cases matched).countP (beginsWith "ok") + Report.failures cases matched =
        cases.length := by
  induction h with
  | nil => exact ⟨rfl, rfl⟩
  | @cons c outcome rest others _ _ ih =>
    obtain ⟨hfailed, hpassed⟩ := ih
    rw [List.zipWith_cons_cons, List.countP_cons, List.countP_cons, beginsWith_failed_caseVerdict,
      beginsWith_ok_caseVerdict, failures_cons, hfailed, List.length_cons, ← hpassed]
    by_cases hsame : outcome = c.expect
    · simp [hsame]
      omega
    · simp [hsame]
      omega

theorem tellsCases_ofCases
    (h : List.Forall₂ (fun c outcome => config.isMatch e c.input = .ok outcome) cases matched) :
    TellsCases config e cases (Report.ofCases cases matched) (List.zipWith caseVerdict cases matched)
      (cases.length - Report.failures cases matched) (Report.failures cases matched) := by
  obtain ⟨hfailed, hpassed⟩ := countP_caseVerdict h
  obtain ⟨hsuccess, hmismatch⟩ := code_ite (Report.failures cases matched = 0)
  have htold := forall₂_zipWith h fun c outcome => tellsCase_of_isMatch (c := c)
  refine ⟨?_, lines_ofCases cases matched, htold, by omega, hfailed, by omega, hsuccess, hmismatch⟩
  rw [lines_ofCases, text_ofCases]

end

/-! ## No report -/

/-- The match of the text ends in an error. A match that never ends has none. -/
def Fails (config : Config) (e : Expr) (text : String) (error : MatchError) : Prop :=
  config.isMatch e text = .error error ∧ error ≠ .endless

/-- What comes of a pattern file and the inputs: a report, or the problem that there is none for. -/
def answer (config : Config) (file : PatternFile) (inputs : List String) : Except Problem Report :=
  match file.pattern.toExpr with
  | .error error => .error (.pattern error)
  | .ok e => (report config e file.cases inputs).mapError .failedMatch

/-- There is no report, and the message says why. -/
def FailsWith (config : Config) (file : PatternFile) (inputs : List String) (message : String) : Prop :=
  ∃ problem, answer config file inputs = .error problem ∧ problem.message = message ∧
    ∀ text, problem ≠ .failedMatch ⟨text, .endless⟩

section

variable {config : Config} {file : PatternFile} {inputs : List String} {e : Expr} {text : String}

/-- Where a match can go on for ever, none ends in an error. -/
theorem isMatch_ne_endless_of_fails {error : MatchError} (h : Fails config e text error) (other : String) :
    config.isMatch e other ≠ .error .endless := by
  intro hother
  obtain ⟨herror, hne⟩ := h
  rw [isMatch_eq_error_iff, findEnd_eq_error_iff] at hother herror
  obtain ⟨rfl, -⟩ := evaluate_eq_endless_iff.mp hother
  by_cases moves : Expr.Advances text e 0
  · have allows : Config.Allows ⟨.faithful, none⟩ (Expr.stepCount text e 0 + 1) :=
      Config.allows_of_none rfl _
    simp [evaluate_of_allows (fun _ => moves) allows] at herror
  · rw [evaluate_unlimited_of_not_advances moves] at herror
    exact hne (Except.error.inj herror).symm

theorem report_eq_map (config : Config) (e : Expr) (file : PatternFile) (inputs : List String) :
    report config e file.cases inputs = (outcomes config e (matchedTexts file inputs)).map
      (if inputs.isEmpty then Report.ofCases file.cases else Report.ofInputs inputs) := by
  rw [report, matchedTexts]
  split <;> rfl

theorem answer_eq_ok_iff {report : Report} : answer config file inputs = .ok report ↔
    ∃ e, file.pattern.toExpr = .ok e ∧ CommandLine.report config e file.cases inputs = .ok report := by
  rw [answer]
  cases file.pattern.toExpr with
  | error error => simp
  | ok e =>
    dsimp only
    cases hreport : CommandLine.report config e file.cases inputs <;> simp [Except.mapError, hreport]

theorem answer_eq_error_iff {problem : Problem} : answer config file inputs = .error problem ↔
    (∃ error, file.pattern.toExpr = .error error ∧ problem = .pattern error) ∨
      ∃ e failed, file.pattern.toExpr = .ok e ∧
        outcomes config e (matchedTexts file inputs) = .error failed ∧ problem = .failedMatch failed := by
  rw [answer]
  cases file.pattern.toExpr with
  | error error => simp [@eq_comm _ problem]
  | ok e =>
    dsimp only
    rw [report_eq_map]
    cases hmatched : outcomes config e (matchedTexts file inputs) <;>
      simp [Except.mapError, Except.map, hmatched, @eq_comm _ problem]

theorem tells_of_answer {report : Report} (h : answer config file inputs = .ok report) :
    ∃ e, file.pattern.toExpr = .ok e ∧ (inputs ≠ [] → TellsInputs config e inputs report) ∧
      (inputs = [] → ∃ verdicts passed failed,
        TellsCases config e file.cases report verdicts passed failed) := by
  obtain ⟨e, he, hreport⟩ := answer_eq_ok_iff.mp h
  rw [report_eq_map] at hreport
  cases hmatched : outcomes config e (matchedTexts file inputs) with
  | error failed => simp [hmatched, Except.map] at hreport
  | ok matched =>
    rw [hmatched] at hreport
    obtain rfl := Except.ok.inj hreport
    rw [outcomes_eq_ok_iff, matchedTexts] at hmatched
    refine ⟨e, he, fun hinputs => ?_, fun hinputs => ?_⟩
    · rw [List.isEmpty_eq_false_iff.mpr hinputs] at hmatched ⊢
      exact tellsInputs_ofInputs hmatched
    · rw [List.isEmpty_iff.mpr hinputs] at hmatched ⊢
      exact ⟨_, _, _, tellsCases_ofCases (List.forall₂_map_left_iff.mp hmatched)⟩

theorem failsWith_of_outcomes {failed : FailedMatch} (he : file.pattern.toExpr = .ok e)
    (hfailed : outcomes config e (matchedTexts file inputs) = .error failed)
    (hne : failed.error ≠ .endless) : FailsWith config file inputs failed.message := by
  have hanswer := answer_eq_error_iff.mpr (Or.inr ⟨e, failed, he, hfailed, rfl⟩)
  refine ⟨.failedMatch failed, hanswer, rfl, ?_⟩
  intro text hendless
  cases hendless
  exact hne rfl

/-- The pattern is no expression and the message says why, or the message is about the first text whose
match fails. -/
theorem failsWith_iff {message : String} : FailsWith config file inputs message ↔
    (∃ error, file.pattern.toExpr = .error error ∧ message = error.message) ∨
      ∃ e before text after error, file.pattern.toExpr = .ok e ∧
        matchedTexts file inputs = before ++ text :: after ∧
        (∀ earlier ∈ before, ∃ matched, config.isMatch e earlier = .ok matched) ∧
        Fails config e text error ∧ message = quoted text ++ ": " ++ error.message := by
  constructor
  · rintro ⟨problem, hanswer, rfl, hends⟩
    rcases answer_eq_error_iff.mp hanswer with ⟨error, herror, rfl⟩ | ⟨e, ⟨text, error⟩, he, hfailed, rfl⟩
    · exact Or.inl ⟨error, herror, rfl⟩
    · obtain ⟨before, after, hsplit, hbefore, hmatch⟩ := outcomes_eq_error_iff.mp hfailed
      have hne : error ≠ .endless := by
        rintro rfl
        exact hends text rfl
      exact Or.inr ⟨e, before, text, after, error, he, hsplit, hbefore, ⟨hmatch, hne⟩, rfl⟩
  · rintro (⟨error, herror, rfl⟩ | ⟨e, before, text, after, error, he, hsplit, hbefore, hfails, rfl⟩)
    · exact ⟨.pattern error, answer_eq_error_iff.mpr (Or.inl ⟨error, herror, rfl⟩), rfl, nofun⟩
    · have hfailed : outcomes config e (matchedTexts file inputs) = .error ⟨text, error⟩ :=
        outcomes_eq_error_iff.mpr ⟨before, after, hsplit, hbefore, hfails.1⟩
      have hfailsWith := failsWith_of_outcomes he hfailed hfails.2
      rwa [FailedMatch.message] at hfailsWith

theorem exists_failsWith_iff : (∃ message, FailsWith config file inputs message) ↔
    (∃ error, file.pattern.toExpr = .error error) ∨
      ∃ e, file.pattern.toExpr = .ok e ∧
        ∃ text ∈ matchedTexts file inputs, ∃ error, Fails config e text error := by
  constructor
  · rintro ⟨message, h⟩
    rcases failsWith_iff.mp h with ⟨error, herror, -⟩ | hmatch
    · exact Or.inl ⟨error, herror⟩
    · obtain ⟨e, before, text, after, error, he, hsplit, -, hfails, -⟩ := hmatch
      exact Or.inr ⟨e, he, text, by simp [hsplit], error, hfails⟩
  · rintro (⟨error, herror⟩ | ⟨e, he, text, htext, error, hfails⟩)
    · exact ⟨_, failsWith_iff.mpr (Or.inl ⟨error, herror, rfl⟩)⟩
    · cases houtcomes : outcomes config e (matchedTexts file inputs) with
      | error failed =>
        -- The first match that is not answered may come earlier, but it is no endless one.
        have hne : failed.error ≠ .endless := by
          intro hendless
          obtain ⟨_, _, -, -, hmatch⟩ := outcomes_eq_error_iff.mp houtcomes
          exact isMatch_ne_endless_of_fails hfails failed.input (hendless ▸ hmatch)
        exact ⟨_, failsWith_of_outcomes he houtcomes hne⟩
      | ok matched =>
        obtain ⟨outcome, houtcome⟩ := exists_outcome_of_mem houtcomes htext
        simp [hfails.1] at houtcome

/-- A session under settings that it accepts fails with the problem or delivers the report. -/
theorem check_run_eq_answer {surroundings : Surroundings} {disk : Disk} {options : Options}
    (hinputs : surroundings.inputs options.inputs = .ok inputs)
    (hsettings : options.settings file.config surroundings.overrides = config)
    (haccepted : ¬ (config.zeroWidth = .faithful ∧ config.maxSteps = none)) :
    ∃ log, (check surroundings.host options file).run disk =
      match answer config file inputs with
      | .error problem => (.failed problem log, disk)
      | .ok report => delivery disk options log report := by
  rw [check_run]
  dsimp only
  rw [hsettings, if_neg haccepted, matching, hinputs, answer]
  cases file.pattern.toExpr with
  | error error => exact ⟨"", rfl⟩
  | ok e =>
    refine ⟨log options.logLevel config e (matchedTexts file inputs), ?_⟩
    dsimp only
    cases report config e file.cases inputs <;> rfl

end

/-- A report tells of every text in order, and its summary and its status are about all that it tells.
There is none if the pattern is no expression or the match of a text ends in an error, and then the
message is about the first of these. A session delivers the one or gives the other. -/
theorem verdicts_agree_with_status (config : Config) (file : PatternFile) (inputs : List String) :
    (∀ report, answer config file inputs = .ok report → ∃ e, file.pattern.toExpr = .ok e ∧
      (inputs ≠ [] → TellsInputs config e inputs report) ∧
      (inputs = [] → ∃ verdicts passed failed,
        TellsCases config e file.cases report verdicts passed failed)) ∧
    ((∃ message, FailsWith config file inputs message) ↔
      (∃ error, file.pattern.toExpr = .error error) ∨
        ∃ e, file.pattern.toExpr = .ok e ∧
          ∃ text ∈ matchedTexts file inputs, ∃ error, Fails config e text error) ∧
    (∀ message, FailsWith config file inputs message ↔
      (∃ error, file.pattern.toExpr = .error error ∧ message = error.message) ∨
        ∃ e before text after error, file.pattern.toExpr = .ok e ∧
          matchedTexts file inputs = before ++ text :: after ∧
          (∀ earlier ∈ before, ∃ matched, config.isMatch e earlier = .ok matched) ∧
          Fails config e text error ∧ message = quoted text ++ ": " ++ error.message) ∧
    ∀ (surroundings : Surroundings) (disk : Disk) (options : Options),
      surroundings.inputs options.inputs = .ok inputs →
      options.settings file.config surroundings.overrides = config →
      ¬ (config.zeroWidth = .faithful ∧ config.maxSteps = none) →
      ∃ log, (check surroundings.host options file).run disk =
        match answer config file inputs with
        | .error problem => (.failed problem log, disk)
        | .ok report => delivery disk options log report :=
  ⟨fun _ => tells_of_answer, exists_failsWith_iff, fun _ => failsWith_iff,
    fun _ _ _ => check_run_eq_answer⟩

/-- A later match leaves the mismatch before it standing. -/
theorem later_match_keeps_mismatch :
    ∃ report, answer {} { pattern := .literal "a" } ["b\n", "a"] = .ok report ∧
      lines report.text = ["no match " ++ quoted "b\n", "match " ++ quoted "a"] ∧ report.status.code = 1 := by
  have hpattern : Definition.toExpr (.literal "a") = .ok (.literal "a") := Definition.toExpr_eq_ok_iff.mpr rfl
  have hanswer : answer {} { pattern := .literal "a" } ["b\n", "a"] =
      .ok (Report.ofInputs ["b\n", "a"] [false, true]) := by
    have hfirst : (Expr.committedEnd "b\n" (.literal "a") 0 == some "b\n".utf8ByteSize) = false := by
      decide +kernel
    have hsecond : (Expr.committedEnd "a" (.literal "a") 0 == some "a".utf8ByteSize) = true := by
      decide +kernel
    refine answer_eq_ok_iff.mpr ⟨_, hpattern, ?_⟩
    simp [report, outcomes, isMatch_default, hfirst, hsecond, Except.map]
  obtain ⟨e, he, htells, -⟩ := (verdicts_agree_with_status _ _ _).1 _ hanswer
  obtain rfl : Expr.literal "a" = e := Except.ok.inj (hpattern.symm.trans he)
  have hmiss : ¬ Consumes {} (.literal "a") "b\n" := by
    rw [Consumes, findEnd_default]
    decide +kernel
  have hwhole : Consumes {} (.literal "a") "a" := by
    rw [Consumes, findEnd_default]
    decide +kernel
  obtain ⟨-, hlines, -, hmismatch⟩ := htells (by simp)
  refine ⟨_, hanswer, ?_, hmismatch.mpr ⟨"b\n", by simp, hmiss⟩⟩
  obtain ⟨first, _, hfirst, htail, heq⟩ := List.forall₂_cons_left_iff.mp hlines
  obtain ⟨second, _, hsecond, hnil, rfl⟩ := List.forall₂_cons_left_iff.mp htail
  obtain rfl := List.forall₂_nil_left_iff.mp hnil
  rw [heq, (hfirst.resolve_left fun h => hmiss h.1).2, (hsecond.resolve_right fun h => h.1 hwhole).2]

end CommittedRegex.CommandLine
