import CommittedRegex.Matcher
import CommittedRegex.Proofs.Expr.Recursion
import CommittedRegex.Proofs.Machine.Run

/-! # The machine refines the recursive matcher

Whatever waits in the store, the evaluation of an expression comes to the resumption of its
continuation with the end that plain recursion finds, and the slots in use are then the same as before.
On a new machine this fixes the whole answer, the counters included, for either policy, unless the
faithful policy meets a round of a star that does not move. -/
namespace CommittedRegex
open CommittedRegex.Expr

namespace Moment

variable {input : String}

theorem advances_done (policy : ZeroWidth) {m : Moment input} {result : Option Nat}
    (h : m.work = .resume result .done) :
    ∃ last, Advances policy 1 m last ∧ last.work = .finished result ∧ last.store = m.store := by
  have hfind : m.store.find? .done = some .done := by simp [Store.find?]
  obtain ⟨reachable, hstep⟩ := step_resume policy h hfind
  have hrepeats : m.repeats policy = false := by simp [repeats, stays, h, Store.waiting?]
  exact ⟨_, .single hrepeats hstep, rfl, by simp [Store.remove]⟩

/-- An evaluation for the terminal continuation finishes with the committed end, with as much waiting as
before. -/
theorem advances_eval_done {policy : ZeroWidth} {m : Moment input} {e : Expr} {start : Nat}
    (moves : policy = .faithful → Expr.Advances input e start) (hw : m.work = .eval e start .done) :
    ∃ last, Advances policy (stepCount input e start + 1) m last ∧
      last.work = .finished (committedEnd input e start) ∧ last.store.live = m.store.live ∧
      last.store.peak = max m.store.peak (m.store.live + pendingCount input e start) := by
  obtain ⟨next, run, handed⟩ := advances_eval policy moves hw
  obtain ⟨last, final, hlast, hstore⟩ := advances_done policy handed.work
  refine ⟨last, run.trans final, hlast, ?_, ?_⟩
  · rw [hstore, handed.agrees.live]
  · rw [hstore, handed.peak]

end Moment

/-- The first moment of the evaluation of an expression on a new machine. -/
def Expr.firstMoment (e : Expr) (input : String) : Moment input :=
  (Machine.new input {}).moment (.eval e 0 .done)

def Ending.answer (ending : Ending) : Except MatchError (Option Nat × Stats) :=
  ending.outcome.map fun stop => (stop, ⟨ending.steps, ending.store.peak, ending.store.live⟩)

theorem Ending.answer_of_error {ending : Ending} {error : MatchError}
    (h : ending.outcome = .error error) : ending.answer = .error error := by
  rw [answer, h]
  rfl

theorem evaluate_eq_answer (config : Config) (e : Expr) (input : String) :
    evaluate config e input =
      ((e.firstMoment input).run config (config.patience .empty 0) 0).answer := rfl

/-- An evaluation that the limit leaves room for takes the counted steps and has the counted frames
waiting on top of what waits at the start. -/
theorem Machine.drive_eval_of_allows {machine : Machine} {e : Expr} {start : Nat}
    (moves : machine.config.zeroWidth = .faithful → Advances machine.input e start)
    (allows : machine.config.Allows (machine.steps + (stepCount machine.input e start + 1))) :
    (machine.drive (.eval e start .done)).1 = .ok (committedEnd machine.input e start) ∧
      (machine.drive (.eval e start .done)).2.stats =
        { steps := machine.steps + (stepCount machine.input e start + 1)
          peakDepth := max machine.store.peak
            (machine.store.live + pendingCount machine.input e start)
          pending := machine.store.live } := by
  let first := machine.moment (.eval e start .done)
  let patience := machine.config.patience machine.store machine.steps
  have hw : first.work = .eval e start .done := rfl
  obtain ⟨last, run, hlast, hlive, hpeak⟩ := Moment.advances_eval_done moves hw
  have hrun : first.run machine.config patience machine.steps = _ :=
    Moment.run_of_advances run allows
  rw [Moment.run_of_finished hlast] at hrun
  refine ⟨congrArg Ending.outcome hrun, ?_⟩
  rw [Stats.mk.injEq]
  refine ⟨congrArg Ending.steps hrun, ?_, ?_⟩
  · exact (congrArg (fun ending => ending.store.peak) hrun).trans hpeak
  · exact (congrArg (fun ending => ending.store.live) hrun).trans hlive

theorem evaluate_eq_drive (config : Config) (e : Expr) (input : String) :
    evaluate config e input = ((Machine.new input config).drive (.eval e 0 .done)).1.map
      fun stop => (stop, ((Machine.new input config).drive (.eval e 0 .done)).2.stats) := rfl

section Answer

variable {config : Config} {e : Expr} {input : String}

theorem advances_to_answer (policy : ZeroWidth)
    (moves : policy = .faithful → Advances input e 0) :
    ∃ last, Moment.Advances policy (stepCount input e 0 + 1) (e.firstMoment input) last ∧
      last.work = .finished (committedEnd input e 0) ∧
      last.store.peak = pendingCount input e 0 ∧ last.store.live = 0 := by
  have hw : (e.firstMoment input).work = .eval e 0 .done := rfl
  obtain ⟨last, run, hlast, hlive, hpeak⟩ := Moment.advances_eval_done moves hw
  refine ⟨last, run, hlast, ?_, hlive⟩
  simpa [firstMoment, Machine.moment, Machine.new, Store.empty] using hpeak

theorem exists_runs_to_answer (e : Expr) (input : String) :
    ∃ n last, Moment.Runs .guard n (e.firstMoment input) last ∧
      last.work = .finished (committedEnd input e 0) := by
  obtain ⟨last, run, hlast, -⟩ := advances_to_answer .guard (fun h => nomatch h)
  exact ⟨_, last, run.runs, hlast⟩

theorem evaluate_of_allows (moves : config.zeroWidth = .faithful → Advances input e 0)
    (allows : config.Allows (stepCount input e 0 + 1)) :
    evaluate config e input = .ok (committedEnd input e 0,
      { steps := stepCount input e 0 + 1, peakDepth := pendingCount input e 0, pending := 0 }) := by
  rw [← Nat.zero_add (stepCount input e 0 + 1)] at allows
  obtain ⟨houtcome, hstats⟩ := @Machine.drive_eval_of_allows (.new input config) e 0 moves allows
  rw [evaluate_eq_drive, houtcome, hstats]
  simp [Except.map, Machine.new, Store.empty]

theorem evaluate_of_not_allows (moves : config.zeroWidth = .faithful → Advances input e 0)
    (hcut : ¬ config.Allows (stepCount input e 0 + 1)) :
    ∃ limit, config.maxSteps = some limit ∧
      evaluate config e input = .error (.stepLimitExceeded limit) := by
  obtain ⟨last, run, -⟩ := advances_to_answer config.zeroWidth moves
  rw [← Nat.zero_add (stepCount input e 0 + 1)] at hcut
  obtain ⟨limit, hmax, houtcome⟩ := Moment.run_cut run (fun _ _ => Nat.zero_le _) hcut
  refine ⟨limit, hmax, ?_⟩
  rw [evaluate_eq_answer]
  exact Ending.answer_of_error houtcome

end Answer

section Guarded

variable (e : Expr) (input : String)

theorem evaluate_default : evaluate {} e input = .ok (committedEnd input e 0,
    { steps := stepCount input e 0 + 1, peakDepth := pendingCount input e 0, pending := 0 }) :=
  evaluate_of_allows (fun h => nomatch h) (Config.allows_of_none rfl _)

theorem findEnd_default : ({} : Config).findEnd e input = .ok (committedEnd input e 0) := by
  rw [Config.findEnd, evaluate_default]
  rfl

theorem isMatch_default :
    ({} : Config).isMatch e input = .ok (committedEnd input e 0 == some input.utf8ByteSize) := by
  rw [Config.isMatch, findEnd_default]
  rfl

theorem matches_iff : e.matches input = true ↔ committedEnd input e 0 = some input.utf8ByteSize := by
  rw [Expr.matches, isMatch_default]
  exact beq_iff_eq

end Guarded

/-- Under the guard an evaluation for the terminal continuation gives the committed end, unless the limit
comes before. -/
theorem Machine.drive_eval_done {machine : Machine} (hpolicy : machine.config.zeroWidth = .guard)
    (e : Expr) (start : Nat) :
    (machine.drive (.eval e start .done)).1 = .ok (committedEnd machine.input e start) ∨
      ∃ limit, machine.config.maxSteps = some limit ∧
        (machine.drive (.eval e start .done)).1 = .error (.stepLimitExceeded limit) := by
  have moves : machine.config.zeroWidth = .faithful → Advances machine.input e start := by
    simp [hpolicy]
  by_cases allows : machine.config.Allows (machine.steps + (stepCount machine.input e start + 1))
  · exact Or.inl (Machine.drive_eval_of_allows moves allows).1
  · right
    let first := machine.moment (.eval e start .done)
    have hw : first.work = .eval e start .done := rfl
    obtain ⟨last, run, -⟩ := Moment.advances_eval_done moves hw
    by_cases hsteps : machine.config.Allows machine.steps
    · exact Moment.run_cut run hsteps allows
    · obtain ⟨limit, hmax, hspent⟩ :=
        Config.spent?_of_not_allows (mt (fun h => h.mono (Nat.le_succ _)) hsteps)
      have hrun : first.run machine.config (machine.config.patience machine.store machine.steps)
          machine.steps = _ := Moment.run_of_spent (by rintro _ ⟨⟩) hspent
      exact ⟨limit, hmax, congrArg Ending.outcome hrun⟩

/-- Wherever an expression starts, a new machine finds its committed end. -/
theorem drive_new (e : Expr) (input : String) (start : Nat) :
    ((Machine.new input {}).drive (.eval e start .done)).1 = .ok (committedEnd input e start) := by
  apply (Machine.drive_eval_done rfl e start).resolve_right
  rintro ⟨limit, hmax, -⟩
  cases hmax

/-- The loop of a drive under the guard goes from an evaluation through a moment at which the committed
end is handed over and the slots in use are those of the start. -/
theorem Machine.Reached.hands_over {machine : Machine} (h : machine.Reached {}) (e : Expr)
    (start : Nat) (cont : ContId) :
    ∃ n next, Moment.Runs .guard n (machine.moment (.eval e start cont)) next ∧
      next.work = .resume (committedEnd machine.input e start) cont ∧
      (∀ (index : Nat) (c : Continuation), next.store.slots[index]? = some (some c) ↔
        machine.store.slots[index]? = some (some c)) ∧
      ∀ patience, (machine.moment (.eval e start cont)).run machine.config patience machine.steps =
        next.run machine.config patience (machine.steps + n) := by
  have hw : (machine.moment (.eval e start cont)).work = .eval e start cont := rfl
  obtain ⟨next, run, handed⟩ := Moment.advances_eval .guard (fun h => nomatch h) hw
  refine ⟨_, next, run.runs, handed.work, ?_, ?_⟩
  · exact handed.agrees.slot_iff next.reachable.wellFormed machine.reachable.wellFormed
  · intro patience
    rw [h.config_eq]
    exact Moment.run_of_advances run (Config.allows_of_none rfl _)

/-- There is one recursive matcher. Whatever a caller did before, the loop comes from an evaluation to
the resumption with the matcher's end, with the same slots in use, and a new machine gives that end. -/
theorem evaluation_refines_matcher (input : String) :
    ∃ ends, IsMatcher input ends ∧ (∀ other, IsMatcher input other → other = ends) ∧
      (∀ machine : Machine, machine.Reached {} → machine.input = input →
        ∀ (e : Expr) (start : Nat) (cont : ContId),
          ∃ n next, Moment.Runs .guard n (machine.moment (.eval e start cont)) next ∧
            next.work = .resume (ends e start) cont ∧
            (∀ (index : Nat) (c : Continuation), next.store.slots[index]? = some (some c) ↔
              machine.store.slots[index]? = some (some c)) ∧
            ∀ patience,
              (machine.moment (.eval e start cont)).run machine.config patience machine.steps =
                next.run machine.config patience (machine.steps + n)) ∧
      ∀ e : Expr, (∃ stats, evaluate {} e input = .ok (ends e 0, stats) ∧ stats.pending = 0) ∧
        ({} : Config).findEnd e input = .ok (ends e 0) ∧
        ({} : Config).isMatch e input = .ok (ends e 0 == some input.utf8ByteSize) ∧
        (e.matches input = true ↔ ends e 0 = some input.utf8ByteSize) := by
  refine ⟨committedEnd input, isMatcher_committedEnd input, ?_, ?_, ?_⟩
  · intro other hother
    funext e start
    exact hother.eq_committedEnd e start
  · rintro machine hreached rfl e start cont
    exact hreached.hands_over e start cont
  · intro e
    exact ⟨⟨_, evaluate_default e input, rfl⟩, findEnd_default e input, isMatch_default e input,
      matches_iff e input⟩

end CommittedRegex
