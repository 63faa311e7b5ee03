import CommittedRegex.Expr.Committed

/-! # The counts of an evaluation

The equations that a count along an evaluation solves: what a leaf counts, what an operator makes of the
count of its first operand, and how this is joined with the count of whatever the operator has evaluated
next. They have one solution. The number of steps and the number of pending frames are such counts. -/
namespace CommittedRegex.Expr

/-- The count of a leaf is `leaf`. An operator turns the count of its first operand `into` its own, and
joins it with the count of what it has evaluated next, if there is such a thing. -/
structure Counts (ends : Expr → Nat → Option Nat) (leaf : Nat) (into : Nat → Nat)
    (join : Nat → Nat → Nat) (count : Expr → Nat → Nat) : Prop where
  empty : ∀ start, count empty start = leaf
  literal : ∀ text start, count (literal text) start = leaf
  concat_of_some : ∀ a b start stop, ends a start = some stop →
    count (concat a b) start = join (into (count a start)) (count b stop)
  concat_of_none : ∀ a b start, ends a start = none →
    count (concat a b) start = into (count a start)
  alternate_of_some : ∀ a b start stop, ends a start = some stop →
    count (alternate a b) start = into (count a start)
  alternate_of_none : ∀ a b start, ends a start = none →
    count (alternate a b) start = join (into (count a start)) (count b start)
  star_of_stop : ∀ a start, (∀ stop, ends a start = some stop → stop = start) →
    count (star a) start = into (count a start)
  star_of_advance : ∀ a start stop, ends a start = some stop → stop ≠ start →
    count (star a) start = join (into (count a start)) (count (star a) stop)

/-- An operator takes two steps of its own, and all steps add up. -/
def CountsSteps (ends : Expr → Nat → Option Nat) (steps : Expr → Nat → Nat) : Prop :=
  Counts ends 1 (2 + ·) (· + ·) steps

/-- An operator has one frame pending while its first operand is evaluated, and none while it has
something else evaluated next. -/
def CountsPending (ends : Expr → Nat → Option Nat) (pending : Expr → Nat → Nat) : Prop :=
  Counts ends 0 (1 + ·) max pending

section Unique

variable {input : String} {leaf : Nat} {into : Nat → Nat} {join : Nat → Nat → Nat}
variable {count other : Expr → Nat → Nat}

theorem Counts.eq (h : Counts (committedEnd input) leaf into join count)
    (h' : Counts (committedEnd input) leaf into join other) (e : Expr) (start : Nat) :
    count e start = other e start := by
  induction e generalizing start with
  | empty => rw [h.empty, h'.empty]
  | literal text => rw [h.literal, h'.literal]
  | concat a b iha ihb =>
    cases hend : committedEnd input a start with
    | none => rw [h.concat_of_none a b start hend, h'.concat_of_none a b start hend, iha]
    | some stop =>
      rw [h.concat_of_some a b start stop hend, h'.concat_of_some a b start stop hend, iha, ihb]
  | alternate a b iha ihb =>
    cases hend : committedEnd input a start with
    | none => rw [h.alternate_of_none a b start hend, h'.alternate_of_none a b start hend, iha, ihb]
    | some stop =>
      rw [h.alternate_of_some a b start stop hend, h'.alternate_of_some a b start stop hend, iha]
  | star a iha =>
    induction start using rounds_induction with
    | last start hlast =>
      rw [h.star_of_stop a start hlast, h'.star_of_stop a start hlast, iha]
    | more start stop hend hlt _ ih =>
      have hne : stop ≠ start := by omega
      rw [h.star_of_advance a start stop hend hne, h'.star_of_advance a start stop hend hne, iha, ih]

theorem Counts.unique (h : Counts (committedEnd input) leaf into join count)
    (h' : Counts (committedEnd input) leaf into join other) : count = other := by
  funext e start
  exact h.eq h' e start

end Unique

theorem countsSteps_stepCount (input : String) :
    CountsSteps (committedEnd input) (stepCount input) where
  empty _ := rfl
  literal _ _ := rfl
  concat_of_some _ _ _ _ h := by simp only [stepCount, h]
  concat_of_none _ _ _ h := by simp only [stepCount, h]
  alternate_of_some _ _ _ _ h := by simp only [stepCount, h]
  alternate_of_none _ _ _ h := by simp only [stepCount, h]
  star_of_stop _ _ h := by
    simp only [stepCount]
    rw [foldRounds_of_last h]
  star_of_advance _ _ _ h hne := by
    simp only [stepCount]
    rw [foldRounds_of_move h hne]

theorem countsPending_pendingCount (input : String) :
    CountsPending (committedEnd input) (pendingCount input) where
  empty _ := rfl
  literal _ _ := rfl
  concat_of_some _ _ _ _ h := by simp only [pendingCount, h]
  concat_of_none _ _ _ h := by simp only [pendingCount, h]
  alternate_of_some _ _ _ _ h := by simp only [pendingCount, h]
  alternate_of_none _ _ _ h := by simp only [pendingCount, h]
  star_of_stop _ _ h := by
    simp only [pendingCount]
    rw [foldRounds_of_last h]
  star_of_advance _ _ _ h hne := by
    simp only [pendingCount]
    rw [foldRounds_of_move h hne]

end CommittedRegex.Expr
