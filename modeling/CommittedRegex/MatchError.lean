import CommittedRegex.Text.Quoted

/-! # Errors

What can go wrong when an expression is matched or a pattern file is read, with the text of each
message. -/
namespace CommittedRegex

/-- Why there is no answer. -/
inductive MatchError
  /-- The match took as many steps as it may take and had no result yet. -/
  | stepLimitExceeded (limit : Nat)
  /-- Nothing waits under the id, because it was taken out before or never stored. -/
  | unknownContinuation (id : Nat)
  | unreadable (path reason : String)
  /-- The text is no document at all. -/
  | malformed
  /-- The document, or the definition in it, does not say what it should. -/
  | invalid (reason : String)
  /-- The match goes round in place for ever. -/
  | endless
  deriving DecidableEq, Inhabited

namespace MatchError

def malformedReason : String := "invalid TOML"

def message : MatchError → String
  | stepLimitExceeded limit => s!"Step limit exceeded: no result after {limit} steps"
  | unknownContinuation id => s!"Unknown continuation #{id}: already resumed or never stored"
  | unreadable path reason => "Cannot read '" ++ path ++ "': " ++ reason
  | malformed => "Parse error: " ++ malformedReason
  | invalid reason => "Parse error: " ++ reason
  | endless => "Endless match: a repetition does not advance and there is no step limit"

def inspect : MatchError → String
  | stepLimitExceeded limit => "StepLimitExceeded \x7b limit: " ++ toString limit ++ " \x7d"
  | unknownContinuation id => "UnknownContinuation \x7b id: " ++ toString id ++ " \x7d"
  | unreadable path reason =>
    "Io \x7b path: " ++ Text.quoted path ++ ", message: " ++ Text.quoted reason ++ " \x7d"
  | malformed => "Parse(" ++ Text.quoted malformedReason ++ ")"
  | invalid reason => "Parse(" ++ Text.quoted reason ++ ")"
  | endless => "Endless"

end MatchError

end CommittedRegex
