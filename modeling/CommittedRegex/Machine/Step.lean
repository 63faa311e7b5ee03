import CommittedRegex.Expr.Committed
import CommittedRegex.Store.Lemmas

/-! # One step of the machine

A moment of a run over an input is a store and the one item of work at hand. A step replaces the item:
a leaf is looked up in the input, an operator stores what is to happen after its first operand and
goes on with that operand, and a result is handed to the continuation that waits for it. -/
namespace CommittedRegex

/-- The machine between two steps of a run over the input. -/
structure Moment (input : String) where
  store : Store
  reachable : store.Reachable
  work : WorkItem

/-- Why there is no next step, with the moment that the machine stays at. -/
inductive Halt (input : String)
  | finished (m : Moment input) (result : Option Nat)
  | unknown (m : Moment input) (id : ContId)

namespace Moment

variable {input : String}

/-- Stores a continuation and evaluates an expression for it. -/
def descend (m : Moment input) (c : Continuation) (e : Expr) (start : Nat) : Moment input :=
  let pushed := m.store.push c
  ⟨pushed.2, m.reachable.push c, .eval e start pushed.1⟩

def turnTo (m : Moment input) (work : WorkItem) : Moment input := ⟨m.store, m.reachable, work⟩

/-- Evaluates an expression as far as one step goes. -/
def evaluate (m : Moment input) (start : Nat) (cont : ContId) : Expr → Moment input
  | .empty => m.turnTo (.resume none cont)
  | .literal text => m.turnTo (.resume (Text.stop? text input start) cont)
  | .concat a b => m.descend (.afterConcat b cont) a start
  | .alternate a b => m.descend (.afterAlternate b start cont) a start
  | .star a => m.descend (.afterRepeat (.star a) start cont) a start

/-- The next moment, or why there is none. -/
def step (policy : ZeroWidth) (m : Moment input) : Except (Halt input) (Moment input) :=
  match m.work with
  | .finished result => .error (.finished m result)
  | .eval e start cont => .ok (m.evaluate start cont e)
  | .resume result cont =>
    match h : m.store.find? cont with
    | none => .error (.unknown m cont)
    | some c =>
      .ok ⟨m.store.remove cont, m.reachable.take (Store.take_of_find? h), c.resume policy result⟩

/-- The step at hand ends a round of a star that did not move. -/
def stays (m : Moment input) : Bool :=
  match m.work with
  | .resume result cont =>
    match m.store.waiting? cont with
    | some c => c.Stays result
    | none => false
  | _ => false

/-- The round at hand does not move and is followed by another one. -/
def repeats (policy : ZeroWidth) (m : Moment input) : Bool := policy = .faithful && m.stays

/-- The items of work at this moment and at the following ones, `count` of them at most, on top of
those met before. -/
def trailOnto (policy : ZeroWidth) (before : List WorkItem) : Nat → Moment input → List WorkItem
  | 0, _ => before
  | count + 1, m =>
    match m.step policy with
    | .error _ => m.work :: before
    | .ok next => trailOnto policy (m.work :: before) count next

/-- The items of work at this moment and at the following ones in order, `count` of them at most. -/
def trail (policy : ZeroWidth) (count : Nat) (m : Moment input) : List WorkItem :=
  (m.trailOnto policy [] count).reverse

/-- A number of steps that leads from one moment to another. -/
inductive Runs (policy : ZeroWidth) : Nat → Moment input → Moment input → Prop
  | refl (m : Moment input) : Runs policy 0 m m
  | step {n : Nat} {m next last : Moment input} :
      m.step policy = .ok next → Runs policy n next last → Runs policy (n + 1) m last

theorem Runs.trans {policy : ZeroWidth} {n k : Nat} {a b c : Moment input}
    (h : Runs policy n a b) (h' : Runs policy k b c) : Runs policy (n + k) a c := by
  induction h with
  | refl m => simpa using h'
  | @step n m next last hstep _ ih =>
    rw [Nat.succ_add]
    exact .step hstep (ih h')

theorem Runs.single {policy : ZeroWidth} {m next : Moment input} (h : m.step policy = .ok next) :
    Runs policy 1 m next :=
  .step h (.refl next)

/-- A run that follows no round that did not move by another one. -/
inductive Advances (policy : ZeroWidth) : Nat → Moment input → Moment input → Prop
  | refl (m : Moment input) : Advances policy 0 m m
  | step {n : Nat} {m next last : Moment input} :
      m.repeats policy = false → m.step policy = .ok next → Advances policy n next last →
        Advances policy (n + 1) m last

theorem Advances.trans {policy : ZeroWidth} {n k : Nat} {a b c : Moment input}
    (h : Advances policy n a b) (h' : Advances policy k b c) : Advances policy (n + k) a c := by
  induction h with
  | refl m => simpa using h'
  | @step n m next last hrepeats hstep _ ih =>
    rw [Nat.succ_add]
    exact .step hrepeats hstep (ih h')

theorem Advances.single {policy : ZeroWidth} {m next : Moment input}
    (h : m.repeats policy = false) (hstep : m.step policy = .ok next) : Advances policy 1 m next :=
  .step h hstep (.refl next)

theorem Advances.runs {policy : ZeroWidth} {n : Nat} {m last : Moment input}
    (h : Advances policy n m last) : Runs policy n m last := by
  induction h with
  | refl m => exact .refl m
  | step _ hstep _ ih => exact .step hstep ih

@[simp] theorem repeats_guard (m : Moment input) : m.repeats .guard = false := rfl

theorem repeats_of_eval {m : Moment input} (policy : ZeroWidth) {e : Expr} {start : Nat}
    {cont : ContId} (h : m.work = .eval e start cont) : m.repeats policy = false := by
  simp [repeats, stays, h]

theorem repeats_of_resume {m : Moment input} (policy : ZeroWidth) {result : Option Nat}
    {cont : ContId} {c : Continuation} (h : m.work = .resume result cont)
    (hc : m.store.waiting? cont = some c) :
    m.repeats policy = (policy = .faithful && c.Stays result) := by
  simp [repeats, stays, h, hc]

theorem step_finished {m : Moment input} {policy : ZeroWidth} {result : Option Nat}
    (h : m.work = .finished result) : m.step policy = .error (.finished m result) := by
  simp [step, h]

theorem step_eval {m : Moment input} {policy : ZeroWidth} {e : Expr} {start : Nat} {cont : ContId}
    (h : m.work = .eval e start cont) : m.step policy = .ok (m.evaluate start cont e) := by
  simp [step, h]

theorem step_resume_of_none {m : Moment input} {policy : ZeroWidth} {result : Option Nat}
    {cont : ContId} (h : m.work = .resume result cont) (hf : m.store.find? cont = none) :
    m.step policy = .error (.unknown m cont) := by
  unfold step
  simp only [h]
  split
  · rfl
  · rename_i hsome
    simp [hf] at hsome

theorem step_resume (policy : ZeroWidth) {m : Moment input} {result : Option Nat} {cont : ContId}
    {c : Continuation} (h : m.work = .resume result cont) (hf : m.store.find? cont = some c) :
    ∃ reachable, m.step policy = .ok ⟨m.store.remove cont, reachable, c.resume policy result⟩ := by
  refine ⟨m.reachable.take (Store.take_of_find? hf), ?_⟩
  unfold step
  simp only [h]
  split
  · rename_i hnone
    simp [hf] at hnone
  · rename_i c' hsome
    obtain rfl := Option.some.inj (hf.symm.trans hsome)
    rfl

theorem take_of_step_resume {m next : Moment input} {policy : ZeroWidth} {result : Option Nat}
    {cont : ContId} (h : m.work = .resume result cont) (hs : m.step policy = .ok next) :
    ∃ c, m.store.take cont = some (c, next.store) ∧ next.work = c.resume policy result := by
  unfold step at hs
  simp only [h] at hs
  split at hs
  · simp at hs
  · rename_i c hf
    simp only [Except.ok.injEq] at hs
    subst hs
    exact ⟨c, Store.take_of_find? hf, rfl⟩

/-- The policy matters only for a round that did not move. -/
theorem step_faithful {m : Moment input} (h : m.stays = false) :
    m.step .faithful = m.step .guard := by
  cases hw : m.work with
  | finished result => rw [step_finished hw, step_finished hw]
  | eval e start cont => rw [step_eval hw, step_eval hw]
  | resume result cont =>
    cases hf : m.store.find? cont with
    | none => rw [step_resume_of_none hw hf, step_resume_of_none hw hf]
    | some c =>
      obtain ⟨_, faithful⟩ := step_resume .faithful hw hf
      obtain ⟨_, guard⟩ := step_resume .guard hw hf
      have moves : ¬ c.Stays result := by
        unfold Store.find? at hf
        split at hf
        · obtain rfl := Option.some.inj hf
          simp [Continuation.Stays]
        · simpa [stays, hw, hf] using h
      rw [faithful, guard, Continuation.resume_faithful moves]

end Moment

end CommittedRegex
