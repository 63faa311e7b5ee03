import CommittedRegex.Inspect
import CommittedRegex.Matcher

/-! # What a match tells of itself

While a text is matched, the machine tells of every item of work, of the end of its run, and of a limit
that stops it; then the match tells of where it ended. How much of this is written down depends on the
level of the log. -/
namespace CommittedRegex.CommandLine

inductive LogLevel
  | nothing
  | summaries
  | everything
  deriving DecidableEq, Inhabited

/-- The level that writes down all that either level does. -/
def LogLevel.max : LogLevel → LogLevel → LogLevel
  | everything, _ => everything
  | _, everything => everything
  | summaries, _ => summaries
  | nothing, level => level

/-- What there is to tell. -/
inductive Event
  /-- An expression of the given kind is about to be evaluated. -/
  | evaluation (kindName : String) (start : Nat) (cont : ContId)
  | resumption (result : Option Nat) (cont : ContId)
  | finished (result : Option Nat) (stats : Stats)
  | limitReached (limit : Nat)
  /-- The match of a text of the given length has come to an end. -/
  | attempt (stop : Option Nat) (length : Nat) (stats : Stats)

namespace Event

def field (name value : String) : String := " " ++ name ++ "=" ++ value

def counters (stats : Stats) : String :=
  field "steps" (toString stats.steps) ++ field "peak_depth" (toString stats.peakDepth)

/-- The line of the log that tells of an event. -/
def line : Event → String
  | evaluation kindName start cont =>
    "TRACE trampex::trampoline::engine: eval work item" ++ field "node" (Text.quoted kindName) ++
      field "pos" (toString start) ++ field "cont" (toString cont.index) ++ "\n"
  | resumption result cont =>
    "TRACE trampex::trampoline::engine: resume work item" ++ field "result" (Inspect.offset result) ++
      field "cont" (toString cont.index) ++ "\n"
  | finished result stats =>
    "DEBUG trampex::trampoline::engine: drive finished" ++ field "result" (Inspect.offset result) ++
      counters stats ++ "\n"
  | limitReached limit =>
    "DEBUG trampex::trampoline::engine: step limit reached" ++ field "limit" (toString limit) ++ "\n"
  | attempt stop length stats =>
    "DEBUG trampex::matcher: match attempt" ++ field "end" (Inspect.offset stop) ++
      field "len" (toString length) ++ counters stats ++ "\n"

/-- An item of work that is about to be done; the end of the whole is none. -/
def ofWork? : WorkItem → Option Event
  | .eval e start cont => some (evaluation e.kindName start cont)
  | .resume result cont => some (resumption result cont)
  | .finished _ => none

end Event

/-- What the match of a text tells, in order. -/
def eventsOf (level : LogLevel) (config : Config) (e : Expr) (input : String) : List Event :=
  let machine := Machine.new input config
  let (outcome, after) := machine.drive (.eval e 0 .done)
  let steps :=
    if level = .everything then
      ((machine.moment (.eval e 0 .done)).trail config.zeroWidth after.steps).filterMap Event.ofWork?
    else []
  let ending := match outcome with
    | .ok stop => [.finished stop after.stats, .attempt stop input.utf8ByteSize after.stats]
    | .error (.stepLimitExceeded limit) => [.limitReached limit]
    | .error _ => []
  steps ++ ending

/-- What the matches of several texts tell; after the first one that fails there are no others. -/
def eventsOfAll (level : LogLevel) (config : Config) (e : Expr) : List String → List Event
  | [] => []
  | input :: rest =>
    let events := eventsOf level config e input
    match config.isMatch e input with
    | .ok _ => events ++ eventsOfAll level config e rest
    | .error _ => events

def log (level : LogLevel) (config : Config) (e : Expr) (inputs : List String) : String :=
  if level = .nothing then ""
  else (eventsOfAll level config e inputs).foldl (fun text event => text ++ event.line) ""

end CommittedRegex.CommandLine
