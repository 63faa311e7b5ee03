import CommittedRegex.Matcher
import CommittedRegex.PatternFile.Basic

/-! # Reports

A report says of every input whether it matches, or of every case whether its outcome is the expected
one, in order. The first match that fails leaves no report. -/
namespace CommittedRegex.CommandLine

inductive Status
  /-- Every input matches, or every case is as expected. -/
  | success
  /-- Some input does not match, or some case is not as expected. -/
  | mismatch
  /-- There is no report. -/
  | failure
  deriving DecidableEq, Inhabited

def Status.code : Status → Nat
  | success => 0
  | mismatch => 1
  | failure => 2

structure Report where
  text : String
  status : Status
  deriving DecidableEq, Inhabited

/-- A match that failed, with the text that was to be matched. -/
structure FailedMatch where
  input : String
  error : MatchError
  deriving DecidableEq, Inhabited

def FailedMatch.message (failed : FailedMatch) : String :=
  Text.quoted failed.input ++ ": " ++ failed.error.message

/-- The outcomes of the matches of several texts, one after the other. -/
def outcomes (config : Config) (e : Expr) : List String → Except FailedMatch (List Bool)
  | [] => .ok []
  | input :: rest =>
    match config.isMatch e input with
    | .error error => .error ⟨input, error⟩
    | .ok matched => (outcomes config e rest).map (matched :: ·)

namespace Report

def describe (matched : Bool) : String := if matched then "match" else "no match"

def inputLine (input : String) (matched : Bool) : String :=
  describe matched ++ " " ++ Text.quoted input ++ "\n"

def caseLine (c : Case) (matched : Bool) : String :=
  (if matched = c.expect then "ok" else "FAILED") ++ " " ++ Text.quoted c.input ++ " (expected " ++
    describe c.expect ++ ", got " ++ describe matched ++ ")\n"

def summary (total failed : Nat) : String :=
  toString (total - failed) ++ " passed, " ++ toString failed ++ " failed\n"

def ofInputs (inputs : List String) (matched : List Bool) : Report where
  text := String.join (List.zipWith inputLine inputs matched)
  status := if matched.all id then .success else .mismatch

/-- The number of cases that are not as expected. -/
def failures (cases : List Case) (matched : List Bool) : Nat :=
  (List.zipWith (fun c outcome => outcome != c.expect) cases matched).count true

def ofCases (cases : List Case) (matched : List Bool) : Report where
  text := String.join (List.zipWith caseLine cases matched) ++
    summary cases.length (failures cases matched)
  status := if failures cases matched = 0 then .success else .mismatch

end Report

/-- The report on the inputs, or on the cases if there is no input. -/
def report (config : Config) (e : Expr) (cases : List Case) (inputs : List String) :
    Except FailedMatch Report :=
  if inputs.isEmpty then
    (outcomes config e (cases.map Case.input)).map (Report.ofCases cases)
  else (outcomes config e inputs).map (Report.ofInputs inputs)

end CommittedRegex.CommandLine
