import CommittedRegex.Expr.Measure
import CommittedRegex.Proofs.Machine.Limit

/-! # A limit that is never met

The rounds of a star start at growing offsets of the input, so there are no more of them than the input
has offsets, and stars inside each other multiply. This bounds the steps of a guarded evaluation by the
size of the expression, the length of the input and the nesting of stars, and a limit that is not below
the bound changes nothing. -/
namespace CommittedRegex

namespace Expr

/-- The largest number of stars on a way from the root to a leaf. -/
def starHeight : Expr → Nat
  | empty => 0
  | literal _ => 0
  | concat a b => max a.starHeight b.starHeight
  | alternate a b => max a.starHeight b.starHeight
  | star a => 1 + a.starHeight

/-- A number of steps that suffices for every input of the given number of bytes. -/
def stepBound (e : Expr) (size : Nat) : Nat := 3 * e.countNodes * (size + 1) ^ e.starHeight

/-- There are at most as many rounds as offsets from the first round on. -/
theorem foldRounds_le {size bound : Nat} {bodyEnd : Nat → Option Nat} {cost : Nat → Nat}
    (h : ∀ start, cost start ≤ bound) (start : Nat) :
    foldRounds size bodyEnd cost (fun start rest => cost start + rest) start ≤
      (size - start + 1) * bound := by
  fun_induction foldRounds size bodyEnd cost (fun start rest => cost start + rest) start with
  | case1 start _ =>
    rw [Nat.add_mul, Nat.one_mul]
    exact (h start).trans (Nat.le_add_left _ _)
  | case2 start stop bounds _ ih =>
    have fewer : size - stop + 1 ≤ size - start := by omega
    calc cost start + foldRounds size bodyEnd cost (fun start rest => cost start + rest) stop
        ≤ bound + (size - stop + 1) * bound := Nat.add_le_add (h start) ih
      _ ≤ bound + (size - start) * bound := Nat.add_le_add_left (Nat.mul_le_mul_right _ fewer) _
      _ = (size - start + 1) * bound := by rw [Nat.add_mul, Nat.one_mul, Nat.add_comm]

section Bound

variable {count other steps more size height height' : Nat}

/-- Two operands after one another, or one after the other has failed. -/
private theorem add_lt_of_lt (h : steps < 3 * count * (size + 1) ^ height)
    (h' : more < 3 * other * (size + 1) ^ height') :
    2 + steps + more < 3 * (1 + count + other) * (size + 1) ^ max height height' := by
  have hpos : 0 < (size + 1) ^ max height height' := Nat.pow_pos (Nat.succ_pos size)
  have hsteps : steps < 3 * count * (size + 1) ^ max height height' :=
    h.trans_le (Nat.mul_le_mul_left _ (Nat.pow_le_pow_right (Nat.succ_pos size) (Nat.le_max_left _ _)))
  have hmore : more < 3 * other * (size + 1) ^ max height height' :=
    h'.trans_le (Nat.mul_le_mul_left _ (Nat.pow_le_pow_right (Nat.succ_pos size) (Nat.le_max_right _ _)))
  rw [Nat.mul_add, Nat.mul_add, Nat.add_mul, Nat.add_mul]
  omega

/-- As many rounds as the input has offsets, each with two steps of its own. -/
private theorem rounds_mul_lt : (size + 1) * (1 + 3 * count * (size + 1) ^ height) <
    3 * (1 + count) * (size + 1) ^ (1 + height) := by
  have hpos : 0 < (size + 1) ^ height := Nat.pow_pos (Nat.succ_pos size)
  have hone : size + 1 ≤ (size + 1) * (size + 1) ^ height := Nat.le_mul_of_pos_right _ hpos
  calc (size + 1) * (1 + 3 * count * (size + 1) ^ height)
      = (size + 1) + 3 * count * ((size + 1) * (size + 1) ^ height) := by
        rw [Nat.mul_add, Nat.mul_one, Nat.mul_left_comm]
    _ < 3 * ((size + 1) * (size + 1) ^ height) + 3 * count * ((size + 1) * (size + 1) ^ height) := by
        omega
    _ = 3 * (1 + count) * (size + 1) ^ (1 + height) := by
        rw [Nat.pow_add, Nat.pow_one, Nat.mul_add 3, Nat.mul_one, Nat.add_mul 3]

end Bound

theorem stepCount_lt (e : Expr) (input : String) (start : Nat) :
    stepCount input e start < 3 * e.nodeCount * (input.utf8ByteSize + 1) ^ e.starHeight := by
  induction e generalizing start with
  | empty => simp [stepCount, nodeCount, starHeight]
  | literal text => simp [stepCount, nodeCount, starHeight]
  | concat a b iha ihb =>
    simp only [stepCount, nodeCount, starHeight]
    split
    · exact add_lt_of_lt (iha start) (ihb _)
    · exact (Nat.le_add_right _ _).trans_lt (add_lt_of_lt (iha start) (ihb start))
  | alternate a b iha ihb =>
    simp only [stepCount, nodeCount, starHeight]
    split
    · exact (Nat.le_add_right _ _).trans_lt (add_lt_of_lt (iha start) (ihb start))
    · exact add_lt_of_lt (iha start) (ihb start)
  | star a iha =>
    have round (start : Nat) : 2 + stepCount input a start ≤
        1 + 3 * a.nodeCount * (input.utf8ByteSize + 1) ^ a.starHeight := by
      have := iha start
      omega
    have rounds : input.utf8ByteSize - start + 1 ≤ input.utf8ByteSize + 1 := by omega
    simp only [stepCount, nodeCount, starHeight]
    calc foldRounds input.utf8ByteSize (committedEnd input a)
          (fun start => 2 + stepCount input a start)
          (fun start rest => 2 + stepCount input a start + rest) start
        ≤ (input.utf8ByteSize - start + 1) *
            (1 + 3 * a.nodeCount * (input.utf8ByteSize + 1) ^ a.starHeight) :=
          foldRounds_le round start
      _ ≤ (input.utf8ByteSize + 1) *
            (1 + 3 * a.nodeCount * (input.utf8ByteSize + 1) ^ a.starHeight) :=
          Nat.mul_le_mul_right _ rounds
      _ < 3 * (1 + a.nodeCount) * (input.utf8ByteSize + 1) ^ (1 + a.starHeight) := rounds_mul_lt

/-- The step that finishes is counted as well. -/
theorem stepCount_add_one_le (e : Expr) (input : String) :
    stepCount input e 0 + 1 ≤ e.stepBound input.utf8ByteSize := by
  rw [stepBound, countNodes_eq_nodeCount]
  exact stepCount_lt e input 0

end Expr

section Guarded

variable {e : Expr} {input : String}

theorem Moment.Runs.le_stepBound {n : Nat} {m : Moment input}
    (h : Moment.Runs .guard n (e.firstMoment input) m) : n ≤ e.stepBound input.utf8ByteSize := by
  obtain ⟨last, hadvances, hlast, -⟩ := advances_to_answer .guard (fun h => nomatch h)
  obtain ⟨rest, hrest, -⟩ := hadvances.runs.of_halts (Moment.step_finished hlast) h
  have := e.stepCount_add_one_le input
  omega

/-- Whether a limit cuts the run off or not, the machine stops within the bound. -/
theorem steps_drive_le_stepBound (maxSteps : Option Nat) :
    ((Machine.new input ⟨.guard, maxSteps⟩).drive (.eval e 0 .done)).2.steps ≤
      e.stepBound input.utf8ByteSize := by
  have hbound := e.stepCount_add_one_le input
  by_cases allows : Config.Allows ⟨.guard, maxSteps⟩ (Expr.stepCount input e 0 + 1)
  · rw [← Nat.zero_add (Expr.stepCount input e 0 + 1)] at allows
    obtain ⟨-, hstats⟩ :=
      @Machine.drive_eval_of_allows (.new input ⟨.guard, maxSteps⟩) e 0 (by rintro ⟨⟩) allows
    have hsteps : ((Machine.new input ⟨.guard, maxSteps⟩).drive (.eval e 0 .done)).2.steps =
        0 + (Expr.stepCount input e 0 + 1) := congrArg Stats.steps hstats
    omega
  · cases maxSteps with
    | none => exact absurd (Config.allows_of_none rfl _) allows
    | some limit =>
      rw [Config.allows_iff rfl] at allows
      have reached : ((Machine.new input ⟨.guard, some limit⟩).drive (.eval e 0 .done)).2.Reached
          ⟨.guard, some limit⟩ := .drive _ (.new input)
      have hsteps := reached.steps_le
      omega

theorem evaluate_of_stepBound_le {limit : Nat} (h : e.stepBound input.utf8ByteSize ≤ limit) :
    evaluate ⟨.guard, some limit⟩ e input = evaluate {} e input := by
  have allows : Config.Allows ⟨.guard, some limit⟩ (Expr.stepCount input e 0 + 1) :=
    (Config.allows_iff rfl).mpr ((e.stepCount_add_one_le input).trans h)
  rw [evaluate_of_allows (by rintro ⟨⟩) allows, evaluate_default]

theorem isMatch_of_stepBound_le {limit : Nat} (h : e.stepBound input.utf8ByteSize ≤ limit) :
    Config.isMatch ⟨.guard, some limit⟩ e input = .ok (e.matches input) := by
  rw [Expr.matches, Config.isMatch, Config.findEnd, evaluate_of_stepBound_le h, isMatch_default,
    evaluate_default]
  rfl

end Guarded

/-- The sizes of the expression and of the input bound the steps of a guarded run, with a limit or without
one. So a limit that is not below the bound changes no answer, and a match under it is never an error. -/
theorem budget_follows_sizes (e : Expr) (input : String) :
    (∀ n m, Moment.Runs .guard n (e.firstMoment input) m → n ≤ e.stepBound input.utf8ByteSize) ∧
    (∀ maxSteps, ((Machine.new input ⟨.guard, maxSteps⟩).drive (.eval e 0 .done)).2.steps ≤
      e.stepBound input.utf8ByteSize) ∧
    (∃ stop stats, evaluate {} e input = .ok (stop, stats) ∧
      stats.steps ≤ e.stepBound input.utf8ByteSize) ∧
    ∀ limit, e.stepBound input.utf8ByteSize ≤ limit →
      evaluate ⟨.guard, some limit⟩ e input = evaluate {} e input ∧
      Config.isMatch ⟨.guard, some limit⟩ e input = .ok (e.matches input) := by
  refine ⟨fun n m hruns => hruns.le_stepBound, steps_drive_le_stepBound, ?_, ?_⟩
  · exact ⟨_, _, evaluate_default e input, e.stepCount_add_one_le input⟩
  · intro limit hlimit
    exact ⟨evaluate_of_stepBound_le hlimit, isMatch_of_stepBound_le hlimit⟩

end CommittedRegex
