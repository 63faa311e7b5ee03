import CommittedRegex.Text.Basic

/-! # Settings of a match

What a star does when a round succeeds without moving, and how many steps a match may take. Two
environment variables override the settings one by one; a value that cannot be read changes nothing. -/
namespace CommittedRegex

/-- What a star does when a round of its body ends where it started. -/
inductive ZeroWidth
  /-- It ends there. -/
  | guard
  /-- It starts the next round. -/
  | faithful
  deriving DecidableEq, Inhabited

/-- The settings of a match; without `maxSteps` a match may take any number of steps. -/
structure Config where
  zeroWidth : ZeroWidth := .guard
  maxSteps : Option Nat := none
  deriving DecidableEq, Inhabited

structure Overrides where
  maxSteps : Option String := none
  zeroWidth : Option String := none

namespace ZeroWidth

def name : ZeroWidth → String
  | guard => "guard"
  | faithful => "faithful"

def ofName? (text : String) : Option ZeroWidth :=
  if text = guard.name then some guard
  else if text = faithful.name then some faithful
  else none

@[simp] theorem ofName?_name (policy : ZeroWidth) : ofName? policy.name = some policy := by
  cases policy <;> rfl

/-- The policy that a text names; blanks around it and the case of ASCII letters do not count. -/
def ofText? (text : String) : Option ZeroWidth :=
  ofName? (String.ofList ((Text.trim text.toList).map Char.toLower))

end ZeroWidth

namespace Config

def maxStepsVariable : String := "TRAMPEX_MAX_STEPS"

def zeroWidthVariable : String := "TRAMPEX_ZERO_WIDTH"

/-- The settings with what the overrides say in place of what they said before. -/
def override (config : Config) (overrides : Overrides) : Config where
  zeroWidth := (overrides.zeroWidth.bind ZeroWidth.ofText?).getD config.zeroWidth
  maxSteps :=
    match overrides.maxSteps.bind fun text => Text.word? (Text.trim text.toList) with
    | some limit => some limit
    | none => config.maxSteps

end Config

end CommittedRegex
