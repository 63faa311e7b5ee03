import CommittedRegex.CommandLine.Disk
import CommittedRegex.CommandLine.Options
import CommittedRegex.CommandLine.Report
import CommittedRegex.CommandLine.Usage
import CommittedRegex.Definition.Builder
import CommittedRegex.PatternFile.Parse
import CommittedRegex.Text.Basic

/-! # Sessions

A session is one run of the program: it reads the pattern file, then the standard input if an argument
asks for it, matches everything, and only then writes the report to one place. What it needs from the
outside it asks of a host, so that the same session runs on the real files of a computer and on a disk
that is a value. A session that fails writes nothing but its message. -/
namespace CommittedRegex.CommandLine

/-- What a session may ask of the outside. -/
structure Host (m : Type → Type) where
  overrides : m Overrides
  readFile : (path : String) → m (Except String ByteArray)
  readInput : m ByteArray
  /-- The pattern file that a text is. -/
  parse : (text : String) → Except MatchError PatternFile
  writeFile : (path content : String) → m (Except WriteFault Unit)

inductive Problem
  | arguments (fault : ArgumentFault)
  | pattern (error : MatchError)
  /-- Matches that may go on for ever are not begun. -/
  | noStepLimit
  | input (reason : String)
  | failedMatch (failed : FailedMatch)
  | output (path : String) (fault : WriteFault)
  deriving DecidableEq, Inhabited

namespace Problem

def message : Problem → String
  | arguments fault => fault.message
  | pattern error => error.message
  | noStepLimit => "faithful zero-width repetition needs a step limit (--max-steps, [config] max_steps, " ++
    "or TRAMPEX_MAX_STEPS)"
  | input reason => "Failed to read from stdin: " ++ reason
  | failedMatch failed => failed.message
  | output path (.notCreated reason) => "Cannot create '" ++ path ++ "': " ++ reason
  | output path (.notWritten reason) => "Cannot write to " ++ path ++ ": " ++ reason

/-- What is said about the problem. When the arguments are wrong it is said how they should be. -/
def text (problem : Problem) : String :=
  let line := "Error: " ++ problem.message ++ "\n"
  match problem with
  | arguments _ => line ++ "\n" ++ usage
  | _ => line

end Problem

/-- What a session leaves: its status and what it wrote to the standard output and to the standard
error. -/
structure Outcome where
  status : Status
  output : String := ""
  messages : String := ""
  deriving DecidableEq, Inhabited

/-- The session has come to nothing, after it wrote the given log. -/
def Outcome.failed (problem : Problem) (log : String) : Outcome :=
  { status := .failure, messages := log ++ problem.text }

def notUtf8 : String := "stream did not contain valid UTF-8"

/-- The pattern file at a path, from what was read there. -/
def load (parse : String → Except MatchError PatternFile) (path : String)
    (content : Except String ByteArray) : Except MatchError PatternFile :=
  match content with
  | .error reason => .error (.unreadable path reason)
  | .ok bytes =>
    match String.fromUTF8? bytes with
    | none => .error (.unreadable path notUtf8)
    | some text => parse text

/-- The argument that stands for the lines of the standard input. -/
def inputMark : String := "-"

/-- The inputs with the lines in place of the first mark, and nothing in place of any other. -/
def expand (lines : List String) : List String → List String
  | [] => []
  | argument :: rest =>
    if argument = inputMark then lines ++ expand [] rest else argument :: expand lines rest

section

variable {m : Type → Type} [Monad m]

/-- Writes a text to where the options say. -/
def deliver (host : Host m) (options : Options) (log : String) (report : Report) : m Outcome :=
  match options.output with
  | none => return { status := report.status, output := report.text, messages := log }
  | some path => do
    match ← host.writeFile path report.text with
    | .error fault => return .failed (.output path fault) log
    | .ok () => return { status := report.status, messages := log }

/-- The inputs that the arguments stand for. The standard input is read only if it is asked for. -/
def readInputs (host : Host m) (arguments : List String) : m (Except Problem (List String)) := do
  if arguments.contains inputMark then
    match String.fromUTF8? (← host.readInput) with
    | none => return .error (.input notUtf8)
    | some text => return .ok (expand (Text.lines text) arguments)
  else return .ok arguments

def showPattern (host : Host m) (options : Options) (file : PatternFile) : m Outcome :=
  match file.pattern.toExpr with
  | .error error => return .failed (.pattern error) ""
  | .ok e => deliver host options "" ⟨e.display ++ "\n", .success⟩

def check (host : Host m) (options : Options) (file : PatternFile) : m Outcome := do
  let config := options.settings file.config (← host.overrides)
  if config.zeroWidth = .faithful ∧ config.maxSteps = none then return .failed .noStepLimit ""
  else
    match ← readInputs host options.inputs with
    | .error problem => return .failed problem ""
    | .ok inputs =>
      match file.pattern.toExpr with
      | .error error => return .failed (.pattern error) ""
      | .ok e =>
        let texts := if inputs.isEmpty then file.cases.map Case.input else inputs
        let log := log options.logLevel config e texts
        match report config e file.cases inputs with
        | .error failed => return .failed (.failedMatch failed) log
        | .ok report => deliver host options log report

def run (host : Host m) (arguments : List String) : m Outcome :=
  match Options.ofArguments arguments with
  | .error .help => return { status := .success, messages := usage }
  | .error .version => return { status := .success, output := versionText }
  | .error (.fault fault) => return .failed (.arguments fault) ""
  | .ok options =>
    match options.patternFile with
    | none => return .failed (.arguments .noPatternFile) ""
    | some path => do
      match load host.parse path (← host.readFile path) with
      | .error error => return .failed (.pattern error) ""
      | .ok file => if options.showPattern then showPattern host options file else check host options file

end

structure Surroundings where
  overrides : Overrides := {}
  input : ByteArray := .empty
  parse : String → Except MatchError PatternFile := PatternFile.parse

/-- The host of a session on a disk that is a value. -/
def Surroundings.host (surroundings : Surroundings) : Host (StateM Disk) where
  overrides := return surroundings.overrides
  readInput := return surroundings.input
  parse := surroundings.parse
  readFile path disk := ((disk.read path).mapError PathFault.reason, disk)
  writeFile path content disk :=
    match disk.write path content.toUTF8 with
    | .error fault => (.error fault, disk)
    | .ok disk => (.ok (), disk)

/-- A session on a disk, with the disk that it leaves. -/
def runOn (surroundings : Surroundings) (disk : Disk) (arguments : List String) : Outcome × Disk :=
  (run surroundings.host arguments).run disk

end CommittedRegex.CommandLine
