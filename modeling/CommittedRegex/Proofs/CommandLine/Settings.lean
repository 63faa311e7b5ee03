import CommittedRegex.Proofs.CommandLine.Arguments
import CommittedRegex.Proofs.CommandLine.Reports
import CommittedRegex.Proofs.Text.Numeral

/-! # The settings of a session

Each setting comes from the first of three sources that gives it: the arguments, the environment, the
pattern file. What matches are begun with is then the guard or a finite limit, whatever the sources say,
so each of them comes to an end, and what a session leaves is put together from their outcomes. -/
namespace CommittedRegex

namespace ZeroWidth

theorem ofName?_eq_some_iff {text : String} {policy : ZeroWidth} :
    ofName? text = some policy ↔ text = policy.name := by
  constructor
  · intro h
    rw [ofName?] at h
    split_ifs at h with hguard hfaithful
    · exact Option.some.inj h ▸ hguard
    · exact Option.some.inj h ▸ hfaithful
  · rintro rfl
    exact ofName?_name policy

/-- A text names a policy if it is its name but for blanks at the ends and the case of ASCII letters. -/
theorem ofText?_eq_some_iff {text : String} {policy : ZeroWidth} :
    ofText? text = some policy ↔
      ∃ middle, Text.IsTrimmed text.toList middle ∧ String.ofList (middle.map Char.toLower) = policy.name := by
  rw [ofText?, ofName?_eq_some_iff]
  constructor
  · exact fun h => ⟨_, Text.isTrimmed_trim text.toList, h⟩
  · rintro ⟨middle, hmiddle, h⟩
    rwa [Text.trim_eq_iff.mpr hmiddle]

end ZeroWidth

namespace CommandLine

/-- A setting has the value of the first of three sources that gives one. -/
structure Prevails {α : Type} (first second : α → Prop) (last value : α) : Prop where
  of_first : ∀ choice, first choice → value = choice
  of_second : (∀ choice, ¬ first choice) → ∀ choice, second choice → value = choice
  of_last : (∀ choice, ¬ first choice) → (∀ choice, ¬ second choice) → value = last

/-- The last step count of the arguments. -/
def ArguedLimit (arguments : List String) (limit : Option Nat) : Prop :=
  ∃ count n, ((groups arguments).filterMap Group.count?).getLast? = some count ∧
    Text.IsNumeral count.toList n ∧ limit = some n

/-- The number that the environment gives. -/
def NamedLimit (overrides : Overrides) (limit : Option Nat) : Prop :=
  ∃ text middle n, overrides.maxSteps = some text ∧ Text.IsTrimmed text.toList middle ∧
    Text.IsNumeral middle n ∧ limit = some n

def ArguedPolicy (arguments : List String) (policy : ZeroWidth) : Prop :=
  .faithful ∈ groups arguments ∧ policy = .faithful

/-- The policy that the environment names. -/
def NamedPolicy (overrides : Overrides) (policy : ZeroWidth) : Prop :=
  ∃ text middle, overrides.zeroWidth = some text ∧ Text.IsTrimmed text.toList middle ∧
    String.ofList (middle.map Char.toLower) = policy.name

section

variable {arguments : List String} {options : Options} {overrides : Overrides}

theorem namedLimit_iff {limit : Option Nat} :
    NamedLimit overrides limit ↔
      ∃ n, (overrides.maxSteps.bind fun text => Text.word? (Text.trim text.toList)) = some n ∧ limit = some n := by
  constructor
  · rintro ⟨text, middle, n, htext, hmiddle, hn, rfl⟩
    refine ⟨n, ?_, rfl⟩
    rw [htext, Option.bind_some, Text.trim_eq_iff.mpr hmiddle, Text.word?_eq_some_iff]
    exact hn
  · rintro ⟨n, hn, rfl⟩
    obtain ⟨text, htext, hword⟩ := Option.bind_eq_some_iff.mp hn
    exact ⟨text, _, n, htext, Text.isTrimmed_trim text.toList, Text.word?_eq_some_iff.mp hword, rfl⟩

theorem namedPolicy_iff {policy : ZeroWidth} :
    NamedPolicy overrides policy ↔ overrides.zeroWidth.bind ZeroWidth.ofText? = some policy := by
  constructor
  · rintro ⟨text, middle, htext, hmiddle⟩
    rw [htext, Option.bind_some]
    exact ZeroWidth.ofText?_eq_some_iff.mpr ⟨middle, hmiddle⟩
  · intro h
    obtain ⟨text, htext, hpolicy⟩ := Option.bind_eq_some_iff.mp h
    obtain ⟨middle, hmiddle⟩ := ZeroWidth.ofText?_eq_some_iff.mp hpolicy
    exact ⟨text, middle, htext, hmiddle⟩

/-- An override of the settings changes the limit to the number it gives, if it gives one. -/
theorem maxSteps_override (config : Config) (overrides : Overrides) :
    (∀ limit, NamedLimit overrides limit → (config.override overrides).maxSteps = limit) ∧
      ((∀ limit, ¬ NamedLimit overrides limit) → (config.override overrides).maxSteps = config.maxSteps) := by
  rw [Config.override]
  constructor
  · intro limit hlimit
    obtain ⟨n, hn, rfl⟩ := namedLimit_iff.mp hlimit
    simp only [hn]
  · intro hnone
    cases hn : overrides.maxSteps.bind fun text => Text.word? (Text.trim text.toList) with
    | none => rfl
    | some n => exact absurd (namedLimit_iff.mpr ⟨n, hn, rfl⟩) (hnone (some n))

theorem prevails_maxSteps (h : Options.ofArguments arguments = .ok options) (config : Config)
    (overrides : Overrides) :
    Prevails (ArguedLimit arguments) (NamedLimit overrides) config.maxSteps
      (options.settings config overrides).maxSteps := by
  rw [Options.ofArguments, Options.read_eq_foldlM] at h
  obtain ⟨hnamed, hlast⟩ := maxSteps_override config overrides
  rcases Options.maxSteps_of_foldlM h with ⟨hnone, hoptions⟩ | ⟨count, n, hcount, hn, hoptions⟩
  · have hsettings : (options.settings config overrides).maxSteps = (config.override overrides).maxSteps := by
      simp [Options.settings, hoptions]
    rw [hsettings]
    refine ⟨?_, fun _ => hnamed, fun _ => hlast⟩
    rintro limit ⟨count, n, hcount, -⟩
    simp [hnone] at hcount
  · have hargued : ArguedLimit arguments (some n) :=
      ⟨count, n, hcount, Text.word?_eq_some_iff.mp hn, rfl⟩
    refine ⟨?_, fun hnone => absurd hargued (hnone _), fun hnone => absurd hargued (hnone _)⟩
    rintro limit ⟨other, m, hother, hm, rfl⟩
    obtain rfl : count = other := by simpa [hcount] using hother
    obtain rfl : n = m := by simpa [hn] using Text.word?_eq_some_iff.mpr hm
    simp [Options.settings, hoptions]

theorem prevails_zeroWidth (h : Options.ofArguments arguments = .ok options) (config : Config)
    (overrides : Overrides) :
    Prevails (ArguedPolicy arguments) (NamedPolicy overrides) config.zeroWidth
      (options.settings config overrides).zeroWidth := by
  rw [Options.ofArguments, Options.read_eq_foldlM] at h
  have hfaithful : options.faithful = true ↔ .faithful ∈ groups arguments := by
    simpa using Options.faithful_of_foldlM h
  have hplain (hnot : ∀ policy, ¬ ArguedPolicy arguments policy) : options.faithful = false :=
    Bool.eq_false_iff.mpr fun hset => hnot _ ⟨hfaithful.mp hset, rfl⟩
  refine ⟨?_, ?_, ?_⟩
  · rintro policy ⟨hgroup, rfl⟩
    simp [Options.settings, hfaithful.mpr hgroup]
  · intro hnot policy hpolicy
    simp [Options.settings, Config.override, hplain hnot, namedPolicy_iff.mp hpolicy]
  · intro hnot hnone
    have hoverride : overrides.zeroWidth.bind ZeroWidth.ofText? = none := by
      rw [Option.eq_none_iff_forall_ne_some]
      exact fun policy hpolicy => hnone policy (namedPolicy_iff.mpr hpolicy)
    simp [Options.settings, Config.override, hplain hnot, hoverride]

end

/-- What a session may leave that matches under the settings. If there is something to match, either every
text has an outcome, and they are reported, or the match of one text comes to the limit. -/
inductive MatchesUnder (settings : Config) (surroundings : Surroundings) (disk : Disk) (options : Options)
    (file : PatternFile) : Outcome × Disk → Prop
  | noInputs {problem : Problem} (h : surroundings.inputs options.inputs = .error problem) :
      MatchesUnder settings surroundings disk options file (.failed problem "", disk)
  | noExpr {error : MatchError} (h : file.pattern.toExpr = .error error) :
      MatchesUnder settings surroundings disk options file (.failed (.pattern error) "", disk)
  | answered {inputs : List String} {e : Expr} {matched : List Bool}
      (hinputs : surroundings.inputs options.inputs = .ok inputs) (he : file.pattern.toExpr = .ok e)
      (hmatched : List.Forall₂ (HasOutcome settings e) (matchedTexts file inputs) matched) :
      MatchesUnder settings surroundings disk options file
        (delivery disk options (log options.logLevel settings e (matchedTexts file inputs))
          (if inputs.isEmpty then Report.ofCases file.cases matched else Report.ofInputs inputs matched))
  | cut {inputs before after : List String} {text : String} {e : Expr} {limit : Nat}
      (hinputs : surroundings.inputs options.inputs = .ok inputs) (he : file.pattern.toExpr = .ok e)
      (htexts : matchedTexts file inputs = before ++ text :: after)
      (hbefore : ∀ earlier ∈ before, ∃ outcome, HasOutcome settings e earlier outcome)
      (hlimit : settings.maxSteps = some limit)
      (hcut : settings.findEnd e text = .error (.stepLimitExceeded limit)) :
      MatchesUnder settings surroundings disk options file
        (.failed (.failedMatch ⟨text, .stepLimitExceeded limit⟩)
          (log options.logLevel settings e (matchedTexts file inputs)), disk)

theorem matchesUnder_matching {settings : Config}
    (hfinite : settings.zeroWidth = .guard ∨ settings.maxSteps ≠ none) (surroundings : Surroundings)
    (disk : Disk) (options : Options) (file : PatternFile) :
    MatchesUnder settings surroundings disk options file
      (matching surroundings disk options file settings) := by
  rw [matching]
  cases hinputs : surroundings.inputs options.inputs with
  | error problem => exact .noInputs hinputs
  | ok inputs =>
    dsimp only
    cases he : file.pattern.toExpr with
    | error error => exact .noExpr he
    | ok e =>
      dsimp only
      rw [report_eq_map]
      cases houtcomes : outcomes settings e (matchedTexts file inputs) with
      | ok matched =>
        dsimp only [Except.map]
        rw [ite_apply]
        exact .answered hinputs he ((outcomes_eq_ok_iff.mp houtcomes).imp fun _ _ => isMatch_eq_ok_iff.mp)
      | error failed =>
        obtain ⟨before, after, htexts, hbefore, hfailed⟩ := outcomes_eq_error_iff.mp houtcomes
        obtain ⟨text, error⟩ := failed
        -- the match that failed had no outcome, so it came to the limit
        rcases isMatch_cases_of_guard_or_limit hfinite e text with ⟨outcome, houtcome⟩ | ⟨limit, hlimit, hcut⟩
        · cases houtcome.symm.trans hfailed
        · obtain rfl : .stepLimitExceeded limit = error := Except.error.inj (hcut.symm.trans hfailed)
          refine .cut hinputs he htexts (fun earlier hearlier => ?_) hlimit (isMatch_eq_error_iff.mp hcut)
          exact (hbefore earlier hearlier).imp fun _ => isMatch_eq_ok_iff.mp

/-- Each setting comes from its own sources, the arguments before the environment and that before the
pattern file. With the faithful policy and no limit nothing is matched; with any other settings every match
comes to an end, and the session matches under them. -/
theorem settings_keep_matches_finite {arguments : List String} {options : Options}
    (h : Options.ofArguments arguments = .ok options) (surroundings : Surroundings) (config : Config) :
    Prevails (ArguedLimit arguments) (NamedLimit surroundings.overrides) config.maxSteps
      (options.settings config surroundings.overrides).maxSteps ∧
    Prevails (ArguedPolicy arguments) (NamedPolicy surroundings.overrides) config.zeroWidth
      (options.settings config surroundings.overrides).zeroWidth ∧
    ∀ disk file, Loads surroundings disk arguments options file → file.config = config →
      options.showPattern = false →
      ∀ settings, options.settings config surroundings.overrides = settings →
        (settings.zeroWidth = .faithful ∧ settings.maxSteps = none →
          runOn surroundings disk arguments = (.failed .noStepLimit "", disk) ∧
          (runOn surroundings disk arguments).1.status.code = 2) ∧
        (settings.zeroWidth = .guard ∨ settings.maxSteps ≠ none →
          runOn surroundings disk arguments = matching surroundings disk options file settings ∧
          (∀ e input, settings.Ends e input) ∧
          MatchesUnder settings surroundings disk options file (runOn surroundings disk arguments)) := by
  refine ⟨prevails_maxSteps h config _, prevails_zeroWidth h config _, ?_⟩
  rintro disk file hload rfl hshow settings rfl
  rw [hload.runOn_of_matches hshow, check_run]
  constructor
  · intro hendless
    rw [if_pos hendless]
    exact ⟨rfl, rfl⟩
  · intro hfinite
    rw [if_neg]
    · exact ⟨rfl, fun e input => ends_of_guard_or_limit hfinite, matchesUnder_matching hfinite ..⟩
    · rintro ⟨hpolicy, hlimit⟩
      rcases hfinite with hguard | hsome
      · simp [hguard] at hpolicy
      · exact hsome hlimit

/-- A pattern file of a star over the empty text, whose rounds never move. -/
private def circle : String := "[pattern.repeat]\nliteral=\"\"\n"

private theorem parse_circle : PatternFile.parse circle = .ok { pattern := .star (.literal "") } := by
  have htext : circle.toList =
      ['[', 'p', 'a', 't', 't', 'e', 'r', 'n', '.', 'r', 'e', 'p', 'e', 'a', 't', ']', '\n',
        'l', 'i', 't', 'e', 'r', 'a', 'l', '=', '"', '"', '\n'] := rfl
  have htoml : Toml.ofText? circle =
      some [("pattern", .table [("repeat", .table [("literal", .string "")])])] := by
    rw [Toml.ofText?, htext]
    rfl
  exact PatternFile.parse_of_document htoml rfl

private theorem findEnd_circle (limit : Nat) :
    Config.findEnd ⟨.faithful, some limit⟩ (.star (.literal "")) "x" = .error (.stepLimitExceeded limit) := by
  have hstay : Expr.committedEnd "x" (.literal "") 0 = some 0 := by decide +kernel
  have hcircles : ¬ Expr.Advances "x" (.star (.literal "")) 0 := by
    rw [Expr.advances_star_of_stop fun stop hstop => Option.some.inj (hstop.symm.trans hstay)]
    exact fun h => h.2 hstay
  rw [findEnd_eq_error_iff]
  exact evaluate_limited_of_not_advances hcircles limit

/-- The environment and a step count before the last one do not count, and the last one ends a match that
would go on for ever. -/
theorem last_step_count_prevails :
    ∃ options, Options.ofArguments ["--max-steps", "7", "--faithful", "--max-steps", "+9", "p", "x"] =
        .ok options ∧
      (options.settings {} ⟨some " 5 ", some "Guard"⟩).maxSteps = some 9 ∧
      (options.settings {} ⟨some " 5 ", some "Guard"⟩).zeroWidth = .faithful ∧
      (∀ e input, (options.settings {} ⟨some " 5 ", some "Guard"⟩).Ends e input) ∧
      runOn { overrides := ⟨some " 5 ", some "Guard"⟩ } ⟨.directory [("p", .file circle.toUTF8)], []⟩
          ["--max-steps", "7", "--faithful", "--max-steps", "+9", "p", "x"] =
        (.failed (.failedMatch ⟨"x", .stepLimitExceeded 9⟩) "",
          ⟨.directory [("p", .file circle.toUTF8)], []⟩) := by
  have hoptions : Options.ofArguments ["--max-steps", "7", "--faithful", "--max-steps", "+9", "p", "x"] =
      .ok { patternFile := some "p", inputs := ["x"], maxSteps := some 9, faithful := true } := rfl
  have hcount : ArguedLimit ["--max-steps", "7", "--faithful", "--max-steps", "+9", "p", "x"] (some 9) :=
    ⟨"+9", 9, rfl, ⟨['9'], Or.inr rfl, by simp, List.forall_mem_singleton.mpr rfl, rfl, by decide⟩, rfl⟩
  have hpolicy : ArguedPolicy ["--max-steps", "7", "--faithful", "--max-steps", "+9", "p", "x"] .faithful :=
    ⟨by decide, rfl⟩
  obtain ⟨hlimit, hzero, hmatches⟩ :=
    settings_keep_matches_finite hoptions { overrides := ⟨some " 5 ", some "Guard"⟩ } {}
  have hsettings : Options.settings
      { patternFile := some "p", inputs := ["x"], maxSteps := some 9, faithful := true } {}
      ⟨some " 5 ", some "Guard"⟩ = ⟨.faithful, some 9⟩ :=
    congrArg₂ Config.mk (hzero.of_first _ hpolicy) (hlimit.of_first _ hcount)
  obtain ⟨-, hends, hleft⟩ :=
    (hmatches _ _ (loads_of_parse hoptions rfl rfl parse_circle) rfl rfl _ hsettings).2 (Or.inr (by simp))
  refine ⟨_, hoptions, hlimit.of_first _ hcount, hzero.of_first _ hpolicy, by rwa [hsettings], ?_⟩
  have hx : ({ overrides := ⟨some " 5 ", some "Guard"⟩ } : Surroundings).inputs ["x"] = .ok ["x"] :=
    if_neg (by simp [inputMark])
  have hstar : Definition.toExpr (.star (.literal "")) = .ok (.star (.literal "")) :=
    Definition.toExpr_eq_ok_iff.mpr rfl
  generalize runOn _ _ _ = left at hleft ⊢
  cases hleft with
  | noInputs h => cases hx.symm.trans h
  | noExpr h => cases hstar.symm.trans h
  | answered hinputs he hmatched =>
    obtain rfl := Except.ok.inj (hx.symm.trans hinputs)
    obtain rfl := Except.ok.inj (hstar.symm.trans he)
    obtain ⟨outcome, _, ⟨stop, hstop, -⟩, -⟩ := List.forall₂_cons_left_iff.mp hmatched
    cases hstop.symm.trans (findEnd_circle 9)
  | cut hinputs he htexts hbefore hlimit hcut =>
    obtain rfl := Except.ok.inj (hx.symm.trans hinputs)
    obtain rfl : 9 = _ := Option.some.inj hlimit
    obtain ⟨rfl, h⟩ | ⟨_, rfl, h⟩ := List.cons_eq_append_iff.mp htexts
    · obtain ⟨rfl, -⟩ := List.cons.inj h
      rfl
    · simp at h

end CommandLine

end CommittedRegex
