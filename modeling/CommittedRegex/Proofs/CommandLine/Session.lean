import CommittedRegex.CommandLine.Session
import CommittedRegex.Proofs.CommandLine.Writing
import CommittedRegex.Proofs.Definition.Builder
import CommittedRegex.Proofs.Machine.Evaluation

/-! # What a session leaves

On a disk that is a value each part of a session is a function of the disk. The standard input and the
pattern file are only read, and the disk changes in one place of a session: where its report is
delivered, which is the last thing it does. -/
namespace CommittedRegex.CommandLine

variable {surroundings : Surroundings} {disk : Disk}

/-- The inputs that the arguments stand for. -/
def Surroundings.inputs (surroundings : Surroundings) (arguments : List String) :
    Except Problem (List String) :=
  if arguments.contains inputMark then
    match String.fromUTF8? surroundings.input with
    | none => .error (.input notUtf8)
    | some text => .ok (expand (Text.lines text) arguments)
  else .ok arguments

/-- The outcome of a session that has its report, and the disk that it leaves. -/
def delivery (disk : Disk) (options : Options) (log : String) (report : Report) : Outcome × Disk :=
  match options.output with
  | none => ({ status := report.status, output := report.text, messages := log }, disk)
  | some path =>
    match disk.write path report.text.toUTF8 with
    | .error fault => (.failed (.output path fault) log, disk)
    | .ok after => ({ status := report.status, messages := log }, after)

/-- The texts that are matched: the inputs, or those of the cases if there is no input. -/
def matchedTexts (file : PatternFile) (inputs : List String) : List String :=
  if inputs.isEmpty then file.cases.map Case.input else inputs

/-- The rest of a session that matches under the given settings. -/
def matching (surroundings : Surroundings) (disk : Disk) (options : Options) (file : PatternFile)
    (settings : Config) : Outcome × Disk :=
  match surroundings.inputs options.inputs with
  | .error problem => (.failed problem "", disk)
  | .ok inputs =>
    match file.pattern.toExpr with
    | .error error => (.failed (.pattern error) "", disk)
    | .ok e =>
      let log := log options.logLevel settings e (matchedTexts file inputs)
      match report settings e file.cases inputs with
      | .error failed => (.failed (.failedMatch failed) log, disk)
      | .ok report => delivery disk options log report

/-! ## The parts of a session on a disk -/

/-- A part of a session goes on with what the part before it has given. -/
theorem run_bind_of_run {α β : Type} {part : StateM Disk α} {next : α → StateM Disk β} {value : α}
    {after : Disk} (h : part.run disk = (value, after)) : (part >>= next).run disk = (next value).run after := by
  rw [StateT.run_bind, h]
  rfl

theorem overrides_run : surroundings.host.overrides.run disk = (surroundings.overrides, disk) := rfl

theorem parse_host : surroundings.host.parse = surroundings.parse := rfl

theorem readInput_run : surroundings.host.readInput.run disk = (surroundings.input, disk) := rfl

theorem readFile_run (path : String) :
    (surroundings.host.readFile path).run disk = ((disk.read path).mapError PathFault.reason, disk) := rfl

theorem writeFile_run (path content : String) :
    (surroundings.host.writeFile path content).run disk =
      match disk.write path content.toUTF8 with
      | .error fault => (.error fault, disk)
      | .ok after => (.ok (), after) := rfl

theorem readInputs_run (arguments : List String) :
    (readInputs surroundings.host arguments).run disk = (surroundings.inputs arguments, disk) := by
  rw [readInputs, Surroundings.inputs]
  split
  · rw [run_bind_of_run readInput_run]
    cases String.fromUTF8? surroundings.input <;> rfl
  · rfl

theorem deliver_run (options : Options) (log : String) (report : Report) :
    (deliver surroundings.host options log report).run disk = delivery disk options log report := by
  rw [deliver, delivery]
  cases options.output with
  | none => rfl
  | some path =>
    dsimp only
    rw [run_bind_of_run (writeFile_run path report.text)]
    cases disk.write path report.text.toUTF8 <;> rfl

theorem check_run (options : Options) (file : PatternFile) :
    (check surroundings.host options file).run disk =
      let settings := options.settings file.config surroundings.overrides
      if settings.zeroWidth = .faithful ∧ settings.maxSteps = none then (.failed .noStepLimit "", disk)
      else matching surroundings disk options file settings := by
  rw [check, run_bind_of_run overrides_run]
  dsimp only
  split
  · rfl
  · rw [matching, run_bind_of_run (readInputs_run options.inputs)]
    cases surroundings.inputs options.inputs with
    | error problem => rfl
    | ok inputs =>
      cases file.pattern.toExpr with
      | error error => rfl
      | ok e =>
        dsimp only [matchedTexts]
        cases report (options.settings file.config surroundings.overrides) e file.cases inputs with
        | error failed => rfl
        | ok report => exact deliver_run ..

theorem showPattern_run (options : Options) (file : PatternFile) :
    (showPattern surroundings.host options file).run disk =
      match file.pattern.toExpr with
      | .error error => (.failed (.pattern error) "", disk)
      | .ok e => delivery disk options "" ⟨e.display ++ "\n", .success⟩ := by
  rw [showPattern]
  cases file.pattern.toExpr with
  | error error => rfl
  | ok e => exact deliver_run ..

theorem fromUTF8?_toUTF8 (text : String) : String.fromUTF8? text.toUTF8 = some text := by
  rw [String.fromUTF8?, String.toUTF8_eq_toByteArray, dif_pos text.isValidUTF8]
  rfl

/-- A file that holds a text is read as that text. -/
theorem load_toUTF8 (parse : String → Except MatchError PatternFile) (path text : String) :
    load parse path (.ok text.toUTF8) = parse text := by
  rw [load, fromUTF8?_toUTF8]

/-- The arguments are right and the pattern file that they name can be read. -/
structure Loads (surroundings : Surroundings) (disk : Disk) (arguments : List String) (options : Options)
    (file : PatternFile) : Prop where
  parsed : Options.ofArguments arguments = .ok options
  loaded : ∃ path, options.patternFile = some path ∧
    load surroundings.parse path ((disk.read path).mapError PathFault.reason) = .ok file

theorem Loads.runOn_eq {arguments : List String} {options : Options} {file : PatternFile}
    (h : Loads surroundings disk arguments options file) :
    runOn surroundings disk arguments =
      if options.showPattern then (showPattern surroundings.host options file).run disk
      else (check surroundings.host options file).run disk := by
  obtain ⟨path, hpath, hload⟩ := h.loaded
  rw [runOn, run, h.parsed]
  dsimp only
  rw [hpath]
  dsimp only
  rw [run_bind_of_run (readFile_run path), parse_host, hload]
  dsimp only
  split <;> rfl

theorem Loads.runOn_of_matches {arguments : List String} {options : Options} {file : PatternFile}
    (h : Loads surroundings disk arguments options file) (hshow : options.showPattern = false) :
    runOn surroundings disk arguments = (check surroundings.host options file).run disk := by
  rw [h.runOn_eq, hshow, if_neg Bool.false_ne_true]

/-! ## All or nothing -/

/-- The session has failed, and it leaves nothing but its message. -/
structure LeavesNothing (disk : Disk) (left : Outcome × Disk) : Prop where
  status : left.1.status = .failure
  output : left.1.output = ""
  disk : left.2 = disk

theorem leavesNothing_failed (disk : Disk) (problem : Problem) (log : String) :
    LeavesNothing disk (.failed problem log, disk) := ⟨rfl, rfl, rfl⟩

/-- A session that loads no pattern file has failed, or it tells about the program. -/
theorem runOn_cases (surroundings : Surroundings) (disk : Disk) (arguments : List String) :
    (∃ options file, Loads surroundings disk arguments options file) ∨
      LeavesNothing disk (runOn surroundings disk arguments) ∨
      (runOn surroundings disk arguments).1.status = .success ∧
        ∃ stop, Options.ofArguments arguments = .error stop := by
  rw [runOn, run]
  cases hoptions : Options.ofArguments arguments with
  | error stop =>
    cases stop with
    | help => exact Or.inr (Or.inr ⟨rfl, _, rfl⟩)
    | version => exact Or.inr (Or.inr ⟨rfl, _, rfl⟩)
    | fault fault => exact Or.inr (Or.inl (leavesNothing_failed ..))
  | ok options =>
    dsimp only
    cases hpath : options.patternFile with
    | none => exact Or.inr (Or.inl (leavesNothing_failed ..))
    | some path =>
      dsimp only
      rw [run_bind_of_run (readFile_run path)]
      rw [parse_host]
      cases hload : load surroundings.parse path ((disk.read path).mapError PathFault.reason) with
      | error error => exact Or.inr (Or.inl (leavesNothing_failed ..))
      | ok file => exact Or.inl ⟨options, file, hoptions, path, hpath, hload⟩

/-- The report on what the session was asked to match. -/
def IsReport (surroundings : Surroundings) (disk : Disk) (arguments : List String) (options : Options)
    (answer : Report) : Prop :=
  ∃ file inputs e, Loads surroundings disk arguments options file ∧
    surroundings.inputs options.inputs = .ok inputs ∧ file.pattern.toExpr = .ok e ∧
    report (options.settings file.config surroundings.overrides) e file.cases inputs = .ok answer

/-- The whole report is in the one place for it, and everything else is as it was. -/
def Delivered (output : Option String) (report : Report) (disk : Disk) (left : Outcome × Disk) : Prop :=
  match output with
  | none => left.1.output = report.text ∧ left.2 = disk
  | some path => left.1.output = "" ∧ ∃ place, disk.Wrote left.2 path report.text.toUTF8 place

section

variable {options : Options} {report : Report} {log : String}

/-- A report that is not delivered leaves nothing. -/
theorem delivery_cases (disk : Disk) (options : Options) (log : String) (report : Report) :
    LeavesNothing disk (delivery disk options log report) ∨
      (delivery disk options log report).1.status = report.status ∧
        ((∀ path, options.output = some path → disk.IsPlain path) →
          Delivered options.output report disk (delivery disk options log report)) := by
  rw [delivery]
  cases hpath : options.output with
  | none => exact Or.inr ⟨rfl, fun _ => ⟨rfl, rfl⟩⟩
  | some path =>
    dsimp only
    cases hwrite : disk.write path report.text.toUTF8 with
    | error fault => exact Or.inl (leavesNothing_failed ..)
    | ok after => exact Or.inr ⟨rfl, fun hplain => ⟨rfl, Disk.wrote_of_write (hplain path rfl) hwrite⟩⟩

/-- A report is no failure. -/
theorem status_ne_failure {settings : Config} {e : Expr} {cases : List Case} {inputs : List String}
    (h : CommandLine.report settings e cases inputs = .ok report) : report.status ≠ .failure := by
  rw [CommandLine.report] at h
  split at h
  · cases hmatched : outcomes settings e (cases.map Case.input) with
    | error failed => simp [hmatched, Except.map] at h
    | ok matched =>
      obtain rfl : Report.ofCases cases matched = report := by simpa [hmatched, Except.map] using h
      by_cases hall : Report.failures cases matched = 0 <;> simp [Report.ofCases, hall]
  · cases hmatched : outcomes settings e inputs with
    | error failed => simp [hmatched, Except.map] at h
    | ok matched =>
      obtain rfl : Report.ofInputs inputs matched = report := by simpa [hmatched, Except.map] using h
      by_cases hall : matched.all id = true <;> simp [Report.ofInputs, hall]

theorem matching_cases (surroundings : Surroundings) (disk : Disk) (options : Options) (file : PatternFile)
    (settings : Config) :
    LeavesNothing disk (matching surroundings disk options file settings) ∨
      ∃ inputs e report log, surroundings.inputs options.inputs = .ok inputs ∧
        file.pattern.toExpr = .ok e ∧ CommandLine.report settings e file.cases inputs = .ok report ∧
        matching surroundings disk options file settings = delivery disk options log report := by
  rw [matching]
  cases hinputs : surroundings.inputs options.inputs with
  | error problem => exact Or.inl (leavesNothing_failed ..)
  | ok inputs =>
    dsimp only
    cases he : file.pattern.toExpr with
    | error error => exact Or.inl (leavesNothing_failed ..)
    | ok e =>
      dsimp only
      cases hreport : CommandLine.report settings e file.cases inputs with
      | error failed => exact Or.inl (leavesNothing_failed ..)
      | ok report => exact Or.inr ⟨inputs, e, report, _, rfl, rfl, hreport, rfl⟩

theorem matching_of_report {file : PatternFile} {settings : Config} {inputs : List String} {e : Expr}
    (hinputs : surroundings.inputs options.inputs = .ok inputs) (he : file.pattern.toExpr = .ok e)
    (hreport : CommandLine.report settings e file.cases inputs = .ok report) :
    matching surroundings disk options file settings =
      delivery disk options (CommandLine.log options.logLevel settings e (matchedTexts file inputs)) report := by
  rw [matching, hinputs]
  dsimp only
  rw [he]
  dsimp only
  rw [hreport]

end

theorem status_code_eq_two {status : Status} : status.code = 2 ↔ status = .failure := by
  cases status <;> simp [Status.code]

/-- A session leaves nothing, tells about the program, or delivers a text or its report. -/
theorem runOn_leaves (surroundings : Surroundings) (disk : Disk) (arguments : List String) :
    LeavesNothing disk (runOn surroundings disk arguments) ∨
      (runOn surroundings disk arguments).1.status = .success ∧
        (∃ stop, Options.ofArguments arguments = .error stop) ∨
      ∃ options report log, Options.ofArguments arguments = .ok options ∧ report.status ≠ .failure ∧
        (options.showPattern = false → IsReport surroundings disk arguments options report) ∧
        runOn surroundings disk arguments = delivery disk options log report := by
  rcases runOn_cases surroundings disk arguments with ⟨options, file, hload⟩ | hother
  · rw [hload.runOn_eq]
    split
    case isTrue hshow =>
      rw [showPattern_run]
      cases he : file.pattern.toExpr with
      | error error => exact Or.inl (leavesNothing_failed ..)
      | ok e => exact Or.inr (Or.inr ⟨options, _, "", hload.parsed, by simp, by simp [hshow], rfl⟩)
    case isFalse hshow =>
      rw [check_run]
      dsimp only
      split
      · exact Or.inl (leavesNothing_failed ..)
      · rcases matching_cases surroundings disk options file
          (options.settings file.config surroundings.overrides) with hnothing | hmatching
        · exact Or.inl hnothing
        · obtain ⟨inputs, e, report, log, hinputs, he, hreport, heq⟩ := hmatching
          exact Or.inr (Or.inr ⟨options, report, log, hload.parsed, status_ne_failure hreport,
            fun _ => ⟨file, inputs, e, hload, hinputs, he, hreport⟩, heq⟩)
  · exact hother.imp_right Or.inl

/-- A session that fails writes nothing to the standard output and leaves all files as they were. A
session that does not fail, and does not only show the tree, has its whole report in one place. -/
theorem reports_all_or_nothing (surroundings : Surroundings) (disk : Disk) (arguments : List String) :
    ((runOn surroundings disk arguments).1.status.code = 2 →
      (runOn surroundings disk arguments).1.output = "" ∧ (runOn surroundings disk arguments).2 = disk) ∧
    ∀ options, Options.ofArguments arguments = .ok options → options.showPattern = false →
      (∀ path, options.output = some path → disk.IsPlain path) →
      (runOn surroundings disk arguments).1.status.code = 0 ∨
        (runOn surroundings disk arguments).1.status.code = 1 →
      ∃ report, IsReport surroundings disk arguments options report ∧
        (runOn surroundings disk arguments).1.status = report.status ∧
        Delivered options.output report disk (runOn surroundings disk arguments) := by
  rcases runOn_leaves surroundings disk arguments with hnothing | ⟨hsuccess, stop, hstop⟩ | hdelivers
  · refine ⟨fun _ => ⟨hnothing.output, hnothing.disk⟩, fun options _ _ _ hcode => ?_⟩
    simp [hnothing.status, Status.code] at hcode
  · refine ⟨fun hcode => ?_, fun options hoptions => ?_⟩
    · simp [hsuccess, Status.code] at hcode
    · simp [hstop] at hoptions
  · obtain ⟨options, report, log, hoptions, hstatus, hreport, heq⟩ := hdelivers
    rw [heq]
    rcases delivery_cases disk options log report with hnothing | ⟨hsame, hdelivered⟩
    · refine ⟨fun _ => ⟨hnothing.output, hnothing.disk⟩, fun options _ _ _ hcode => ?_⟩
      simp [hnothing.status, Status.code] at hcode
    · refine ⟨fun hcode => ?_, fun other hother hshow hplain _ => ?_⟩
      · exact absurd (hsame.symm.trans (status_code_eq_two.mp hcode)) hstatus
      · obtain rfl : options = other := by simpa [hoptions] using hother
        exact ⟨report, hreport hshow, hsame, hdelivered hplain⟩

/-- A working directory with a pattern file that matches nothing. -/
def shelf : Disk := ⟨.directory [("p", .file "pattern=\"empty\"".toUTF8)], []⟩

private theorem names_shelf : Disk.names "p" = ["p"] := by
  have hsplit : "p".splitOn "/" = ["p"] := by
    rw [String.splitOn, if_neg (by decide), String.splitOnAux, if_neg (by decide), if_neg (by decide),
      String.splitOnAux, if_pos (by decide)]
    decide
  rw [Disk.names, hsplit]
  decide

private theorem target_shelf : shelf.target "p" = .ok ["p"] := by
  rw [Disk.target, names_shelf]
  rfl

/-- A pattern file in the working directory is loaded if it can be read. -/
theorem loads_of_parse {arguments : List String} {options : Options} {text : String} {file : PatternFile}
    (h : Options.ofArguments arguments = .ok options) (hpath : options.patternFile = some "p")
    (hreads : surroundings.parse = PatternFile.parse) (hparse : PatternFile.parse text = .ok file) :
    Loads surroundings ⟨.directory [("p", .file text.toUTF8)], []⟩ arguments options file := by
  refine ⟨h, "p", hpath, ?_⟩
  rw [Disk.read, names_shelf, hreads]
  exact (load_toUTF8 ..).trans hparse

theorem loads_shelf {arguments : List String} {options : Options}
    (h : Options.ofArguments arguments = .ok options) (hpath : options.patternFile = some "p")
    (hreads : surroundings.parse = PatternFile.parse) :
    Loads surroundings shelf arguments options { pattern := .empty } := by
  have htext : "pattern=\"empty\"".toList =
      ['p', 'a', 't', 't', 'e', 'r', 'n', '=', '"', 'e', 'm', 'p', 't', 'y', '"'] := rfl
  have htoml : Toml.ofText? "pattern=\"empty\"" = some [("pattern", .string "empty")] := by
    rw [Toml.ofText?, htext]
    rfl
  have hparse : PatternFile.parse "pattern=\"empty\"" = .ok { pattern := .empty } :=
    PatternFile.parse_of_document htoml rfl
  exact loads_of_parse h hpath hreads hparse

/-- The options of a session whose report takes the place of its own pattern file. -/
private def filing : Options := { patternFile := some "p", inputs := ["x"], output := some "p" }

private theorem matching_filing :
    matching {} shelf filing { pattern := .empty } {} =
      delivery shelf filing "" (Report.ofInputs ["x"] [false]) := by
  have hinputs : ({} : Surroundings).inputs filing.inputs = .ok ["x"] := if_neg (by simp [filing, inputMark])
  have hend : (Expr.committedEnd "x" .empty 0 == some "x".utf8ByteSize) = false := by decide
  have hreport : report {} .empty [] ["x"] = .ok (Report.ofInputs ["x"] [false]) := by
    simp [report, outcomes, isMatch_default, hend, Except.map]
  exact matching_of_report hinputs (Definition.toExpr_eq_ok_iff.mpr rfl) hreport

theorem report_goes_to_the_named_file :
    ∃ (report : Report) (place : List String),
      (runOn {} shelf ["-o", "p", "p", "x"]).1.status = report.status ∧
      (runOn {} shelf ["-o", "p", "p", "x"]).1.output = "" ∧
      shelf.Wrote (runOn {} shelf ["-o", "p", "p", "x"]).2 "p" report.text.toUTF8 place := by
  have hoptions : Options.ofArguments ["-o", "p", "p", "x"] = .ok filing := rfl
  have hplain : ∀ path, filing.output = some path → shelf.IsPlain path := by
    intro path hpath place hplace
    obtain rfl := Option.some.inj hpath
    obtain rfl : ["p"] = place := Except.ok.inj (target_shelf.symm.trans hplace)
    exact Or.inr ⟨_, rfl⟩
  have hcode : (runOn {} shelf ["-o", "p", "p", "x"]).1.status.code = 0 ∨
      (runOn {} shelf ["-o", "p", "p", "x"]).1.status.code = 1 := by
    obtain ⟨after, hwrite⟩ : ∃ after, shelf.write "p" (Report.ofInputs ["x"] [false]).text.toUTF8 = .ok after := by
      rw [Disk.write, target_shelf]
      exact ⟨_, rfl⟩
    have hrun : (check ({} : Surroundings).host filing { pattern := .empty }).run shelf =
        delivery shelf filing "" (Report.ofInputs ["x"] [false]) := by
      rw [check_run, ← matching_filing]
      exact if_neg (by decide)
    have hdelivery : delivery shelf filing "" (Report.ofInputs ["x"] [false]) =
        ({ status := .mismatch }, after) := by
      simp only [delivery, filing, hwrite]
      rfl
    rw [(loads_shelf hoptions rfl rfl).runOn_of_matches rfl, hrun, hdelivery]
    exact Or.inr rfl
  obtain ⟨report, -, hstatus, houtput, place, hwrote⟩ :=
    (reports_all_or_nothing {} shelf ["-o", "p", "p", "x"]).2 filing hoptions rfl hplain hcode
  exact ⟨report, place, hstatus, houtput, hwrote⟩

end CommittedRegex.CommandLine
