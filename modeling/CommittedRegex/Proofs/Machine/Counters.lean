import CommittedRegex.Proofs.Expr.Counts
import CommittedRegex.Proofs.Machine.Evaluation

/-! # The counters of a machine

What a guarded evaluation adds to the counters of a machine is told by recursion along the evaluation,
whatever waits in the machine: the number of steps, the number of frames on top of those that wait, and
nothing that stays. -/
namespace CommittedRegex
open CommittedRegex.Expr

/-- A guarded machine without a limit adds to its counters exactly what the recursion counts, one step for
the end of the whole included. -/
theorem Machine.Reached.drive_eval {machine : Machine} (h : machine.Reached {}) (e : Expr)
    (start : Nat) :
    (machine.drive (.eval e start .done)).1 = .ok (committedEnd machine.input e start) ∧
      (machine.drive (.eval e start .done)).2.stats =
        { steps := machine.stats.steps + stepCount machine.input e start + 1
          peakDepth := max machine.stats.peakDepth
            (machine.stats.pending + pendingCount machine.input e start)
          pending := machine.stats.pending } := by
  have hpolicy : machine.config.zeroWidth = .guard := congrArg Config.zeroWidth h.config_eq
  have hmax : machine.config.maxSteps = none := congrArg Config.maxSteps h.config_eq
  have moves : machine.config.zeroWidth = .faithful → Advances machine.input e start := by
    simp [hpolicy]
  exact drive_eval_of_allows moves (Config.allows_of_none hmax _)

/-- The matcher, the count of steps and the count of pending frames are fixed by their equations. Whatever
a caller did before, an evaluation adds these counts to the counters, and leaves what waited before. -/
theorem counters_are_exact (input : String) :
    ∃ ends steps pending,
      (IsMatcher input ends ∧ ∀ other, IsMatcher input other → other = ends) ∧
      (CountsSteps ends steps ∧ ∀ other, CountsSteps ends other → other = steps) ∧
      (CountsPending ends pending ∧ ∀ other, CountsPending ends other → other = pending) ∧
      (∀ machine : Machine, machine.Reached {} → machine.input = input →
        ∀ (e : Expr) (start : Nat),
          (machine.drive (.eval e start .done)).1 = .ok (ends e start) ∧
          (machine.drive (.eval e start .done)).2.stats =
            { steps := machine.stats.steps + steps e start + 1
              peakDepth := max machine.stats.peakDepth (machine.stats.pending + pending e start)
              pending := machine.stats.pending }) ∧
      ∀ e : Expr, evaluate {} e input =
        .ok (ends e 0, { steps := steps e 0 + 1, peakDepth := pending e 0, pending := 0 }) := by
  refine ⟨committedEnd input, stepCount input, pendingCount input, ⟨isMatcher_committedEnd input, ?_⟩,
    ⟨countsSteps_stepCount input, ?_⟩, ⟨countsPending_pendingCount input, ?_⟩, ?_, ?_⟩
  · intro other hother
    funext e start
    exact hother.eq_committedEnd e start
  · intro other hother
    exact Counts.unique hother (countsSteps_stepCount input)
  · intro other hother
    exact Counts.unique hother (countsPending_pendingCount input)
  · rintro machine hreached rfl e start
    exact hreached.drive_eval e start
  · intro e
    exact evaluate_default e input

end CommittedRegex
