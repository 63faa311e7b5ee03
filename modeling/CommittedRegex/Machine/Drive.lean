import CommittedRegex.Machine.Progress
import CommittedRegex.MatchError

/-! # Driving the machine

A machine belongs to one input and one configuration. It keeps its store and its count of steps from
one drive to the next, so that a caller can store continuations and start work at any of them. Before
each step the count is held against the limit. A round that does not move and is followed by the next
one all the same needs patience: the caller's own continuations can bring about as many of them as
wait at the start, and any further one comes back to the same moment for ever. -/
namespace CommittedRegex

namespace Config

/-- The limit that leaves no further step, if there is one. -/
def spent? (config : Config) (steps : Nat) : Option Nat :=
  match config.maxSteps with
  | some limit => if limit ≤ steps then some limit else none
  | none => none

/-- How many rounds that do not move may still be followed by another one. -/
def patience (config : Config) (store : Store) (steps : Nat) : Nat :=
  match config.maxSteps with
  | some limit => limit - steps
  | none => store.live

end Config

/-- How a run ended, with the store and the number of steps that it left. -/
structure Ending where
  outcome : Except MatchError (Option Nat)
  store : Store
  reachable : store.Reachable
  steps : Nat

namespace Moment

variable {input : String}

def ending (m : Moment input) (steps : Nat) (outcome : Except MatchError (Option Nat)) : Ending :=
  ⟨outcome, m.store, m.reachable, steps⟩

theorem follows_of_step {policy : ZeroWidth} {m next : Moment input} (h : m.repeats policy = false)
    (hstep : m.step policy = .ok next) : Follows next m := by
  cases policy with
  | guard => exact hstep
  | faithful =>
    have stays : m.stays = false := by simpa [repeats] using h
    exact (step_faithful stays).symm.trans hstep

/-- Takes steps until the run ends. -/
def run (config : Config) (patience steps : Nat) (m : Moment input) : Ending :=
  match m.work with
  | .finished result => m.ending steps (.ok result)
  | _ =>
    match config.spent? steps with
    | some limit => m.ending steps (.error (.stepLimitExceeded limit))
    | none =>
      let repeats := m.repeats config.zeroWidth
      if _hpatience : (repeats && patience == 0) = true then m.ending steps (.error .endless)
      else
        match _hstep : m.step config.zeroWidth with
        | .error (.finished m result) => m.ending steps (.ok result)
        | .error (.unknown m id) => m.ending (steps + 1) (.error (.unknownContinuation id.index))
        | .ok next => run config (patience - repeats.toNat) (steps + 1) next
termination_by (patience, m)
decreasing_by
  by_cases hrepeats : m.repeats config.zeroWidth = true
  · have : patience ≠ 0 := by simpa [repeats, hrepeats] using _hpatience
    have spent : patience - repeats.toNat < patience := by
      simp only [repeats, hrepeats, Bool.toNat_true]
      omega
    exact Prod.Lex.left _ _ spent
  · have same : patience - repeats.toNat = patience := by
      simp [repeats, hrepeats]
    rw [same]
    exact Prod.Lex.right _ (follows_of_step (by simpa using hrepeats) _hstep)

end Moment

structure Stats where
  steps : Nat
  peakDepth : Nat
  pending : Nat
  deriving DecidableEq, Inhabited

structure Machine where
  input : String
  config : Config
  store : Store
  reachable : store.Reachable
  steps : Nat

namespace Machine

def new (input : String) (config : Config) : Machine := ⟨input, config, .empty, .empty, 0⟩

/-- Stores a continuation so that work items can name it. -/
def push (machine : Machine) (c : Continuation) : ContId × Machine :=
  let pushed := machine.store.push c
  (pushed.1, { machine with store := pushed.2, reachable := machine.reachable.push c })

def moment (machine : Machine) (work : WorkItem) : Moment machine.input :=
  ⟨machine.store, machine.reachable, work⟩

/-- Works until the end of the whole is known. -/
def drive (machine : Machine) (work : WorkItem) : Except MatchError (Option Nat) × Machine :=
  let patience := machine.config.patience machine.store machine.steps
  let ending := (machine.moment work).run machine.config patience machine.steps
  (ending.outcome,
    { machine with store := ending.store, reachable := ending.reachable, steps := ending.steps })

def stats (machine : Machine) : Stats where
  steps := machine.steps
  peakDepth := machine.store.peak
  pending := machine.store.live

end Machine

end CommittedRegex
