import CommittedRegex.Expr.Committed

/-! # The recursive matcher

The equations that a matcher by plain recursion solves. The committed end solves them, and it is their
only solution: along the rounds of a star the offset grows, so the last equation cannot go round in a
circle. -/
namespace CommittedRegex.Expr
open Text

/-- The ends that the operands have determine the end that the expression has. -/
structure IsMatcher (input : String) (ends : Expr → Nat → Option Nat) : Prop where
  literal : ∀ text start stop,
    ends (literal text) start = some stop ↔ StandsAt text input start stop
  empty : ∀ start, ends empty start = none
  concat : ∀ a b start, ends (concat a b) start = (ends a start).bind (ends b)
  alternate : ∀ a b start, ends (alternate a b) start = (ends a start).or (ends b start)
  star_of_stop : ∀ a start, ends a start = none ∨ ends a start = some start →
    ends (star a) start = some start
  star_of_advance : ∀ a start stop, ends a start = some stop → stop ≠ start →
    ends (star a) start = ends (star a) stop

theorem isMatcher_committedEnd (input : String) : IsMatcher input (committedEnd input) where
  literal _ _ _ := stop?_eq_some_iff
  empty _ := rfl
  concat _ _ _ := rfl
  alternate a b start := by
    simp only [committedEnd]
    cases committedEnd input a start <;> rfl
  star_of_stop a start h := by
    apply committedEnd_star_of_stop
    intro stop hstop
    rcases h with h | h
    · simp [h] at hstop
    · exact Option.some.inj (hstop.symm.trans h)
  star_of_advance _ _ _ h hne := committedEnd_star_of_advance h hne

theorem IsMatcher.eq_committedEnd {input : String} {ends : Expr → Nat → Option Nat}
    (h : IsMatcher input ends) (e : Expr) (start : Nat) :
    ends e start = committedEnd input e start := by
  induction e generalizing start with
  | empty => exact h.empty start
  | literal text =>
    apply Option.ext
    intro stop
    rw [h.literal, committedEnd, stop?_eq_some_iff]
  | concat a b iha ihb =>
    have hb : ends b = committedEnd input b := funext ihb
    rw [h.concat, iha, hb, committedEnd]
  | alternate a b iha ihb =>
    rw [h.alternate, iha, ihb, (isMatcher_committedEnd input).alternate]
  | star a iha =>
    induction start using rounds_induction with
    | last start hlast =>
      rw [committedEnd_star_of_stop hlast]
      apply h.star_of_stop
      rw [iha]
      cases hbody : committedEnd input a start with
      | none => exact Or.inl rfl
      | some stop => exact Or.inr (by rw [hlast stop hbody])
    | more start stop hbody hlt hle ih =>
      have hne : stop ≠ start := by omega
      rw [committedEnd_star_of_advance hbody hne, ← ih]
      exact h.star_of_advance a start stop ((iha start).trans hbody) hne

end CommittedRegex.Expr
