import CommittedRegex.Machine.Drive

/-! # Matching

An expression matches a text if its committed match, started at the beginning, ends exactly at the end
of the text. -/
namespace CommittedRegex

/-- Evaluates an expression from the start of a text on a new machine. -/
def evaluate (config : Config) (e : Expr) (input : String) :
    Except MatchError (Option Nat × Stats) :=
  let (outcome, machine) := (Machine.new input config).drive (.eval e 0 .done)
  outcome.map fun stop => (stop, machine.stats)

namespace Config

def findEnd (config : Config) (e : Expr) (input : String) : Except MatchError (Option Nat) :=
  (evaluate config e input).map Prod.fst

/-- Whether the expression takes up the whole of the text. -/
def isMatch (config : Config) (e : Expr) (input : String) : Except MatchError Bool :=
  (config.findEnd e input).map fun stop => stop == some input.utf8ByteSize

end Config

/-- Whether the expression matches the text under the guard, with as many steps as it takes. -/
def Expr.matches (e : Expr) (input : String) : Bool :=
  match ({} : Config).isMatch e input with
  | .ok matched => matched
  | .error _ => false

end CommittedRegex
