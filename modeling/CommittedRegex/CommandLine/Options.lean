import CommittedRegex.CommandLine.Log

/-! # Options

The arguments of the command line are read from left to right. An option that has a value takes the
next argument, whatever it looks like; two hyphens end the options; all that is no option is the
pattern file or, after that, an input. The first argument that asks for help or for the version, or
that is wrong, decides alone. -/
namespace CommittedRegex.CommandLine

structure Options where
  patternFile : Option String := none
  inputs : List String := []
  output : Option String := none
  showPattern : Bool := false
  maxSteps : Option Nat := none
  faithful : Bool := false
  logLevel : LogLevel := .nothing
  deriving DecidableEq, Inhabited

inductive ArgumentFault
  | unknownOption (argument : String)
  | noOutputFile
  | noStepCount
  | badStepCount (argument : String)
  | noPatternFile
  deriving DecidableEq, Inhabited

def ArgumentFault.message : ArgumentFault → String
  | unknownOption argument => "Unknown option: " ++ argument
  | noOutputFile => "Missing output file after -o"
  | noStepCount => "Missing step count after --max-steps"
  | badStepCount argument => "Invalid step count: " ++ argument
  | noPatternFile => "Missing pattern file"

inductive Stop
  | help
  | version
  | fault (fault : ArgumentFault)
  deriving DecidableEq, Inhabited

inductive ArgumentKind
  | help
  | version
  | output
  | maxSteps
  | showPattern
  | faithful
  | verbose
  | trace
  | endOfOptions
  | unknown
  | positional
  deriving DecidableEq, Inhabited

/-- A hyphen alone is no option. -/
def ArgumentKind.of (argument : String) : ArgumentKind :=
  if argument = "--" then endOfOptions
  else if argument = "-h" ∨ argument = "--help" then help
  else if argument = "-v" ∨ argument = "--version" then version
  else if argument = "-o" ∨ argument = "--output" then output
  else if argument = "--max-steps" then maxSteps
  else if argument = "--show" then showPattern
  else if argument = "--faithful" then faithful
  else if argument = "--verbose" then verbose
  else if argument = "--trace" then trace
  else if argument ≠ "-" ∧ argument.toList.head? = some '-' then unknown
  else positional

namespace Options

/-- The first argument that is no option is the pattern file, any other one is an input. -/
def addPositional (options : Options) (argument : String) : Options :=
  match options.patternFile with
  | none => { options with patternFile := some argument }
  | some _ => { options with inputs := options.inputs ++ [argument] }

/-- Reads the arguments on top of what those before them asked for. -/
def read (options : Options) : List String → Except Stop Options
  | [] => .ok options
  | argument :: rest =>
    match ArgumentKind.of argument with
    | .endOfOptions => .ok (rest.foldl addPositional options)
    | .help => .error .help
    | .version => .error .version
    | .output =>
      match rest with
      | [] => .error (.fault .noOutputFile)
      | path :: rest => read { options with output := some path } rest
    | .maxSteps =>
      match rest with
      | [] => .error (.fault .noStepCount)
      | count :: rest =>
        match Text.word? count.toList with
        | none => .error (.fault (.badStepCount count))
        | some limit => read { options with maxSteps := some limit } rest
    | .showPattern => read { options with showPattern := true } rest
    | .faithful => read { options with faithful := true } rest
    | .verbose => read { options with logLevel := options.logLevel.max .summaries } rest
    | .trace => read { options with logLevel := .everything } rest
    | .unknown => .error (.fault (.unknownOption argument))
    | .positional => read (options.addPositional argument) rest

def ofArguments : List String → Except Stop Options := read {}

/-- The settings of the matches: what the options say goes before the environment, and that before the
pattern file. -/
def settings (options : Options) (config : Config) (overrides : Overrides) : Config :=
  let config := config.override overrides
  { zeroWidth := if options.faithful then .faithful else config.zeroWidth
    maxSteps := match options.maxSteps with
      | some limit => some limit
      | none => config.maxSteps }

end Options

end CommittedRegex.CommandLine
