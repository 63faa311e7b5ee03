import CommittedRegex.Proofs.Machine.Limit
import CommittedRegex.Proofs.Text.Part
import Mathlib.Logic.Function.Basic

/-! # Moving the places of a run

A machine compares places and looks literals up at them, and does nothing else with them. So if each
place is moved by an injective map, and a literal is found at a moved place of another text where it is
found in the first one, then both machines take the same steps. Behind the first part of a text this
makes a match depend on the rest alone. -/
namespace CommittedRegex
open CommittedRegex.Expr Text

/-- The continuation with the place that it may go back to moved. -/
def Continuation.relocate (f : Nat → Nat) : Continuation → Continuation
  | done => done
  | afterConcat right next => afterConcat right next
  | afterAlternate second start next => afterAlternate second (f start) next
  | afterRepeat node lastGood next => afterRepeat node (f lastGood) next

def WorkItem.relocate (f : Nat → Nat) : WorkItem → WorkItem
  | eval e start cont => eval e (f start) cont
  | resume result cont => resume (result.map f) cont
  | finished result => finished (result.map f)

namespace Continuation

variable {f : Nat → Nat} {result : Option Nat}

theorem stays_relocate (hf : f.Injective) (c : Continuation) :
    (c.relocate f).Stays (result.map f) ↔ c.Stays result := by
  cases c with
  | done => rfl
  | afterConcat right next => rfl
  | afterAlternate second start next => rfl
  | afterRepeat node lastGood next => cases result <;> simp [relocate, Stays, hf.eq_iff]

theorem resume_relocate (hf : f.Injective) (policy : ZeroWidth) (c : Continuation) :
    (c.relocate f).resume policy (result.map f) = (c.resume policy result).relocate f := by
  cases c with
  | done => rfl
  | afterConcat right next => cases result <;> rfl
  | afterAlternate second start next => cases result <;> rfl
  | afterRepeat node lastGood next =>
    cases result with
    | none => rfl
    | some stop =>
      simp only [relocate, resume, Option.map_some, hf.eq_iff]
      split <;> rfl

end Continuation

namespace Store

/-- The store with the places of its continuations moved. -/
def relocate (f : Nat → Nat) (store : Store) : Store :=
  { store with slots := store.slots.map (Option.map (Continuation.relocate f)) }

variable (f : Nat → Nat) (store : Store)

theorem relocate_empty : empty.relocate f = empty := by
  simp [relocate, empty, Continuation.relocate]

theorem push_relocate (c : Continuation) :
    (store.relocate f).push (c.relocate f) = ((store.push c).1, (store.push c).2.relocate f) := by
  cases hfree : store.free with
  | nil => simp [push, relocate, hfree]
  | cons index free => simp [push, relocate, hfree]

theorem waiting?_relocate (id : ContId) :
    (store.relocate f).waiting? id = (store.waiting? id).map (Continuation.relocate f) := by
  by_cases hid : id = .done
  · simp [waiting?, hid]
  · simp only [waiting?, relocate, if_neg hid, Array.getElem?_map]
    cases store.slots[id.index]? <;> rfl

theorem find?_relocate (id : ContId) :
    (store.relocate f).find? id = (store.find? id).map (Continuation.relocate f) := by
  by_cases hid : id = .done
  · simp [find?, hid, Continuation.relocate]
  · simp only [find?, if_neg hid, waiting?_relocate]

theorem remove_relocate (id : ContId) :
    (store.relocate f).remove id = (store.remove id).relocate f := by
  by_cases hid : id = .done
  · simp [remove, hid]
  · simp [remove, relocate, hid]

variable {store}

theorem Reachable.relocate (h : Reachable store) : Reachable (store.relocate f) := by
  induction h with
  | empty =>
    rw [relocate_empty]
    exact .empty
  | @push store c _ ih =>
    have hpush := ih.push (c.relocate f)
    rwa [push_relocate] at hpush
  | @take store rest id c _ htake ih =>
    obtain rfl := eq_remove_of_take htake
    have hfind : (store.relocate f).find? id = some (c.relocate f) := by
      rw [find?_relocate, find?_of_take htake, Option.map_some]
    rw [← remove_relocate]
    exact ih.take (take_of_find? hfind)

end Store

namespace Moment

variable {input : String} {f : Nat → Nat} {policy : ZeroWidth} {m next last : Moment input}

/-- The moment with its places moved, over another text. -/
def relocate (f : Nat → Nat) (text : String) (m : Moment input) : Moment text :=
  ⟨m.store.relocate f, m.reachable.relocate f, m.work.relocate f⟩

theorem work_relocate {text : String} {work : WorkItem} (h : m.work = work) :
    (m.relocate f text).work = work.relocate f :=
  congrArg (WorkItem.relocate f) h

theorem stays_relocate (hf : f.Injective) (text : String) (m : Moment input) :
    (m.relocate f text).stays = m.stays := by
  unfold stays relocate
  cases m.work with
  | eval e start cont => rfl
  | finished result => rfl
  | resume result cont =>
    simp only [WorkItem.relocate, Store.waiting?_relocate]
    cases m.store.waiting? cont with
    | none => rfl
    | some c => simp [Continuation.stays_relocate hf]

theorem repeats_relocate (hf : f.Injective) (text : String) (policy : ZeroWidth)
    (m : Moment input) : (m.relocate f text).repeats policy = m.repeats policy := by
  rw [repeats, repeats, stays_relocate hf]

/-- The literal that the moment may have at hand is found at its moved place in the text where it is
found in the input. -/
def FindsAlike (f : Nat → Nat) (text : String) (m : Moment input) : Prop :=
  ∀ word start cont, m.work = .eval (.literal word) start cont →
    stop? word text (f start) = (stop? word input start).map f

theorem descend_relocate (m : Moment input) (c : Continuation) (e : Expr) (start : Nat)
    (text : String) : (m.relocate f text).descend (c.relocate f) e (f start) =
      (m.descend c e start).relocate f text := by
  simp only [descend, relocate, Store.push_relocate, WorkItem.relocate]

theorem evaluate_relocate {text : String} {e : Expr} {start : Nat} {cont : ContId}
    (hw : m.work = .eval e start cont) (h : m.FindsAlike f text) :
    (m.relocate f text).evaluate (f start) cont e = (m.evaluate start cont e).relocate f text := by
  cases e with
  | empty => rfl
  | literal word =>
    simp only [evaluate, h word start cont hw]
    rfl
  | concat a b => exact m.descend_relocate (.afterConcat b cont) a start text
  | alternate a b => exact m.descend_relocate (.afterAlternate b start cont) a start text
  | star a => exact m.descend_relocate (.afterRepeat (.star a) start cont) a start text

end Moment

/-- The halt with the places of its moment and its result moved. -/
def Halt.relocate {input : String} (f : Nat → Nat) (text : String) : Halt input → Halt text
  | finished m result => finished (m.relocate f text) (result.map f)
  | unknown m id => unknown (m.relocate f text) id

/-- The ending with its result and the places of its store moved. -/
def Ending.relocate (f : Nat → Nat) (ending : Ending) : Ending :=
  ⟨ending.outcome.map (Option.map f), ending.store.relocate f, ending.reachable.relocate f,
    ending.steps⟩

theorem Halt.ending_relocate {input : String} (f : Nat → Nat) (text : String) (halt : Halt input)
    (steps : Nat) : (halt.relocate f text).ending steps = (halt.ending steps).relocate f := by
  cases halt <;> rfl

namespace Moment

variable {input text : String} {f : Nat → Nat} {policy : ZeroWidth} {m next last : Moment input}
variable {halt : Halt input} {config : Config} {patience steps : Nat}

theorem step_relocate (hf : f.Injective) (h : m.FindsAlike f text)
    (hstep : m.step policy = .ok next) :
    (m.relocate f text).step policy = .ok (next.relocate f text) := by
  cases hw : m.work with
  | finished result => exact absurd hw (work_ne_finished hstep result)
  | eval e start cont =>
    rw [step_eval hw, Except.ok.injEq] at hstep
    rw [step_eval (work_relocate hw), evaluate_relocate hw h, hstep]
  | resume result cont =>
    obtain ⟨c, htake, hwork⟩ := take_of_step_resume hw hstep
    have hfind : (m.relocate f text).store.find? cont = some (c.relocate f) := by
      simp only [relocate, Store.find?_relocate, Store.find?_of_take htake, Option.map_some]
    obtain ⟨reachable, hnext⟩ := step_resume policy (work_relocate hw) hfind
    rw [hnext, Except.ok.injEq]
    simp only [relocate, Store.remove_relocate, Continuation.resume_relocate hf, hwork,
      Store.eq_remove_of_take htake]

theorem halt_relocate (hstep : m.step policy = .error halt) :
    (m.relocate f text).step policy = .error (halt.relocate f text) := by
  rcases halt_cases hstep with ⟨result, hw, rfl⟩ | ⟨result, id, hw, hfind, rfl⟩
  · exact step_finished (work_relocate hw)
  · have hnone : (m.relocate f text).store.find? id = none := by
      simp only [relocate, Store.find?_relocate, hfind, Option.map_none]
    exact step_resume_of_none (work_relocate hw) hnone

theorem Runs.relocate {n : Nat} (hf : f.Injective) (hruns : Runs policy n m last)
    (h : ∀ k next, Runs policy k m next → next.FindsAlike f text) :
    Runs policy n (m.relocate f text) (last.relocate f text) := by
  induction hruns with
  | refl m => exact .refl _
  | @step n m next last hstep _ ih =>
    have hnext := step_relocate hf (h 0 m (.refl m)) hstep
    exact .step hnext (ih fun k later hlater => h (k + 1) later (.step hstep hlater))

theorem work_relocate_ne_finished (h : ∀ result, m.work = .finished result → False)
    (result : Option Nat) : (m.relocate f text).work ≠ .finished result := by
  intro hmoved
  cases hw : m.work with
  | finished result => exact h result hw
  | eval e start cont => cases (work_relocate hw).symm.trans hmoved
  | resume result cont => cases (work_relocate hw).symm.trans hmoved

/-- The induction is along the run: both machines stop for the same reason, or go on with moments that
are related in the same way. -/
theorem run_relocate (hf : f.Injective) (h : ∀ m : Moment input, m.FindsAlike f text)
    (m : Moment input) (config : Config) (patience steps : Nat) :
    (m.relocate f text).run config patience steps = (m.run config patience steps).relocate f := by
  fun_induction Moment.run config patience steps m with
  | case1 patience steps m result hfinished =>
    rw [run_of_finished (work_relocate hfinished)]
    rfl
  | case2 patience steps m limit hspent hw =>
    rw [run_of_spent (work_relocate_ne_finished hw) hspent]
    rfl
  | case3 patience steps m hspent repeats himpatient _ =>
    obtain ⟨hrepeats, hzero⟩ := Bool.and_eq_true_iff.mp himpatient
    rw [beq_iff_eq] at hzero
    have hmoved : (m.relocate f text).repeats config.zeroWidth = true :=
      (repeats_relocate hf text _ m).trans hrepeats
    rw [hzero, run_of_impatient hspent hmoved]
    rfl
  | case4 patience steps m hspent repeats _ last result herror _ =>
    rw [run_of_halt hspent (halt_relocate herror), Halt.ending_relocate]
    rfl
  | case5 patience steps m hspent repeats _ last id herror _ =>
    rw [run_of_halt hspent (halt_relocate herror), Halt.ending_relocate]
    rfl
  | case6 patience steps m hspent repeats hpatient next hstep _ ih =>
    have hmoved := repeats_relocate hf text config.zeroWidth m
    have patient : (m.relocate f text).repeats config.zeroWidth = true → patience ≠ 0 := by
      rintro hrepeats rfl
      exact hpatient (by simpa [repeats, hmoved] using hrepeats)
    rw [run_of_turn hspent patient (step_relocate hf (h m) hstep), hmoved, ← ih]

theorem Endless.relocate (h : m.Endless) (hf : f.Injective)
    (halike : ∀ m : Moment input, m.FindsAlike f text) : (m.relocate f text).Endless := by
  intro n
  obtain ⟨last, hruns⟩ := h n
  exact ⟨_, hruns.relocate hf fun _ next _ => halike next⟩

end Moment

theorem Ending.answer_relocate (f : Nat → Nat) (ending : Ending) :
    (ending.relocate f).answer = ending.answer.map fun answer => (answer.1.map f, answer.2) := by
  simp only [answer, relocate]
  cases ending.outcome <;> rfl

section Rest

variable (u v : String) (e : Expr) (config : Config)

/-- The first moment of the evaluation behind the first part of a text. -/
def Expr.momentBehind : Moment (u ++ v) :=
  (Machine.new (u ++ v) {}).moment (.eval e u.utf8ByteSize .done)

theorem momentBehind_eq_relocate :
    e.momentBehind u v = (e.firstMoment v).relocate (u.utf8ByteSize + ·) (u ++ v) := by
  simp only [momentBehind, firstMoment, Moment.relocate, Machine.moment, Machine.new,
    WorkItem.relocate, Store.relocate_empty, Nat.add_zero]

/-- A literal stands behind the first part of a text where it stands in the rest. -/
theorem findsAlike_behind (m : Moment v) : m.FindsAlike (u.utf8ByteSize + ·) (u ++ v) :=
  fun word start _ _ => stop?_append word u v start

/-- Behind the first part of a text a new machine gives the answer that it gives on the rest, with the
end moved. -/
theorem drive_behind {driven : Except MatchError (Option Nat) × Machine}
    (h : (Machine.new (u ++ v) config).drive (.eval e u.utf8ByteSize .done) = driven) :
    (driven.1.map fun stop => (stop, driven.2.stats)) =
      (evaluate config e v).map fun answer => (answer.1.map (u.utf8ByteSize + ·), answer.2) := by
  subst h
  have hinj : Function.Injective (u.utf8ByteSize + ·) := add_right_injective _
  have hrun := Moment.run_relocate hinj (findsAlike_behind u v) (e.firstMoment v) config
    (config.patience .empty 0) 0
  rw [← momentBehind_eq_relocate] at hrun
  rw [evaluate_eq_answer, ← Ending.answer_relocate, ← hrun]
  rfl

theorem committedEnd_behind : committedEnd (u ++ v) e u.utf8ByteSize =
    (committedEnd v e 0).map (u.utf8ByteSize + ·) := by
  have hbehind := drive_behind u v e {} rfl
  rw [evaluate_default, drive_new] at hbehind
  exact congrArg Prod.fst (Except.ok.inj hbehind)

theorem endless_behind_iff : evaluate config e v = .error .endless ↔
    config = ⟨.faithful, none⟩ ∧ (e.firstMoment v).Endless ∧ (e.momentBehind u v).Endless := by
  rw [evaluate_eq_endless_iff]
  constructor
  · rintro ⟨hconfig, hendless⟩
    refine ⟨hconfig, hendless, ?_⟩
    rw [momentBehind_eq_relocate]
    exact hendless.relocate (add_right_injective _) (findsAlike_behind u v)
  · rintro ⟨hconfig, hendless, -⟩
    exact ⟨hconfig, hendless⟩

end Rest

end CommittedRegex
