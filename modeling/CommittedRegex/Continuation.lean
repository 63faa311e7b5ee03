import CommittedRegex.Config
import CommittedRegex.Expr.Basic

/-! # Continuations

A continuation says what happens after a subexpression has ended: it holds what a recursive matcher
would keep on its call stack. It names the continuation that comes after it by an id. Resuming it with
the end of the subexpression gives the next item of work. -/
namespace CommittedRegex

structure ContId where
  index : Nat
  deriving DecidableEq, Inhabited

/-- The id of the terminal continuation, which every store holds. -/
def ContId.done : ContId := ⟨0⟩

/-- What happens after a subexpression has ended. -/
inductive Continuation
  /-- Nothing: its end is the end of the whole. -/
  | done
  /-- The right operand of a concatenation follows. -/
  | afterConcat (right : Expr) (next : ContId)
  /-- The second operand of a choice follows at `start` if the first one did not match. -/
  | afterAlternate (second : Expr) (start : Nat) (next : ContId)
  /-- A round of the star `node`, which had come to `lastGood`, is over. -/
  | afterRepeat (node : Expr) (lastGood : Nat) (next : ContId)
  deriving Inhabited

inductive WorkItem
  /-- Match the expression at a place, then resume the continuation with its end. -/
  | eval (expr : Expr) (start : Nat) (cont : ContId)
  /-- Resume the continuation with the end of a subexpression. -/
  | resume (result : Option Nat) (cont : ContId)
  /-- The end of the whole is known. -/
  | finished (result : Option Nat)
  deriving Inhabited

namespace Continuation

/-- The continuation ends a round of a star that did not move. -/
def Stays (result : Option Nat) : Continuation → Prop
  | afterRepeat _ lastGood _ => result = some lastGood
  | _ => False

instance (result : Option Nat) (c : Continuation) : Decidable (c.Stays result) := by
  cases c <;> unfold Stays <;> infer_instance

/-- The work that the continuation leads to when the subexpression has ended with `result`. -/
def resume (policy : ZeroWidth) (result : Option Nat) : Continuation → WorkItem
  | done => .finished result
  | afterConcat right next =>
    match result with
    | some stop => .eval right stop next
    | none => .resume none next
  | afterAlternate second start next =>
    match result with
    | some stop => .resume (some stop) next
    | none => .eval second start next
  | afterRepeat node lastGood next =>
    match result with
    | some stop =>
      if stop = lastGood ∧ policy = .guard then .resume (some stop) next else .eval node stop next
    | none => .resume (some lastGood) next

/-- The policy matters only for a round that did not move. -/
theorem resume_faithful {c : Continuation} {result : Option Nat} (h : ¬ c.Stays result) :
    c.resume .faithful result = c.resume .guard result := by
  cases c with
  | afterRepeat node lastGood next =>
    cases result with
    | none => rfl
    | some stop =>
      have : stop ≠ lastGood := fun heq => h (by simp [Stays, heq])
      simp [resume, this]
  | done => rfl
  | afterConcat right next => rfl
  | afterAlternate second start next => rfl

end Continuation

end CommittedRegex
