import CommittedRegex.Expr.Basic
import CommittedRegex.Text.Basic

/-! # The committed end of an expression

Where an expression ends in a text when it starts at a byte offset, by recursion on the tree. A choice
is never taken back once its first operand has matched, and a star goes round until its body fails or
stays where it is. Beside the end stand the number of steps that a machine needs to find it and the
number of pending frames that the machine holds at most. The main statements bound the end by the
text and unfold one round of a star. -/
namespace CommittedRegex.Expr
open Text

/-- The place that a further round of a star goes on from: the body has moved forward in the text. -/
def advance? (size : Nat) (bodyEnd : Nat → Option Nat) (start : Nat) :
    Option { stop : Nat // start < stop ∧ stop ≤ size } :=
  match bodyEnd start with
  | none => none
  | some stop => if h : start < stop ∧ stop ≤ size then some ⟨stop, h⟩ else none

/-- Folds the rounds of a star that starts at `start`, the last one, which does not move, included. -/
def foldRounds {α : Type} (size : Nat) (bodyEnd : Nat → Option Nat) (last : Nat → α)
    (more : Nat → α → α) (start : Nat) : α :=
  match advance? size bodyEnd start with
  | none => last start
  | some ⟨stop, _⟩ => more start (foldRounds size bodyEnd last more stop)
termination_by size - start

/-- Where the expression ends when it starts at the given offset, unless it does not match there. -/
def committedEnd (input : String) : Expr → Nat → Option Nat
  | empty, _ => none
  | literal text, start => stop? text input start
  | concat a b, start => (committedEnd input a start).bind (committedEnd input b)
  | alternate a b, start =>
    match committedEnd input a start with
    | some stop => some stop
    | none => committedEnd input b start
  | star a, start =>
    some (foldRounds input.utf8ByteSize (committedEnd input a) id (fun _ stop => stop) start)

/-- How many steps lead from the evaluation of the expression to its result. -/
def stepCount (input : String) : Expr → Nat → Nat
  | empty, _ => 1
  | literal _, _ => 1
  | concat a b, start =>
    match committedEnd input a start with
    | some stop => 2 + stepCount input a start + stepCount input b stop
    | none => 2 + stepCount input a start
  | alternate a b, start =>
    match committedEnd input a start with
    | some _ => 2 + stepCount input a start
    | none => 2 + stepCount input a start + stepCount input b start
  | star a, start =>
    foldRounds input.utf8ByteSize (committedEnd input a) (fun start => 2 + stepCount input a start)
      (fun start rest => 2 + stepCount input a start + rest) start

/-- How many frames the evaluation of the expression has pending at most. -/
def pendingCount (input : String) : Expr → Nat → Nat
  | empty, _ => 0
  | literal _, _ => 0
  | concat a b, start =>
    match committedEnd input a start with
    | some stop => max (1 + pendingCount input a start) (pendingCount input b stop)
    | none => 1 + pendingCount input a start
  | alternate a b, start =>
    match committedEnd input a start with
    | some _ => 1 + pendingCount input a start
    | none => max (1 + pendingCount input a start) (pendingCount input b start)
  | star a, start =>
    foldRounds input.utf8ByteSize (committedEnd input a) (fun start => 1 + pendingCount input a start)
      (fun start rest => max (1 + pendingCount input a start) rest) start

/-- No round of a star in the evaluation of the expression ends where it started. -/
def Advances (input : String) : Expr → Nat → Prop
  | empty, _ => True
  | literal _, _ => True
  | concat a b, start =>
    Advances input a start ∧ ∀ stop, committedEnd input a start = some stop → Advances input b stop
  | alternate a b, start =>
    Advances input a start ∧ (committedEnd input a start = none → Advances input b start)
  | star a, start =>
    foldRounds input.utf8ByteSize (committedEnd input a)
      (fun start => Advances input a start ∧ committedEnd input a start ≠ some start)
      (fun start rest => Advances input a start ∧ rest) start

/-- Either no move at all, or a move forward that stays in a text of the given size. -/
def Within (size start stop : Nat) : Prop := stop = start ∨ (start < stop ∧ stop ≤ size)

theorem Within.trans {size a b c : Nat} (h : Within size a b) (h' : Within size b c) :
    Within size a c := by
  unfold Within at *
  omega

section Rounds

variable {α : Type} {size : Nat} {bodyEnd : Nat → Option Nat} {last : Nat → α} {more : Nat → α → α}
variable {start : Nat}

theorem foldRounds_of_none (h : bodyEnd start = none) :
    foldRounds size bodyEnd last more start = last start := by
  rw [foldRounds]
  simp [advance?, h]

theorem foldRounds_of_stay (h : bodyEnd start = some start) :
    foldRounds size bodyEnd last more start = last start := by
  rw [foldRounds]
  simp [advance?, h]

theorem foldRounds_of_advance {stop : Nat} (h : bodyEnd start = some stop) (hlt : start < stop)
    (hle : stop ≤ size) : foldRounds size bodyEnd last more start =
      more start (foldRounds size bodyEnd last more stop) := by
  rw [foldRounds]
  simp [advance?, h, hlt, hle]

/-- The last round does not move, be it that the body does not match or that it stays. -/
theorem foldRounds_of_last (h : ∀ stop, bodyEnd start = some stop → stop = start) :
    foldRounds size bodyEnd last more start = last start := by
  cases hbody : bodyEnd start with
  | none => exact foldRounds_of_none hbody
  | some stop =>
    obtain rfl := h stop hbody
    exact foldRounds_of_stay hbody

end Rounds

theorem within_of_stop? {text input : String} {start stop : Nat}
    (h : stop? text input start = some stop) : Within input.utf8ByteSize start stop := by
  have stands := stop?_eq_some_iff.mp h
  have := stands.start_le
  have := stands.stop_le
  unfold Within
  omega

/-- The rounds of a star never go back. -/
theorem foldRounds_within (size : Nat) (bodyEnd : Nat → Option Nat) (start : Nat) :
    Within size start (foldRounds size bodyEnd id (fun _ stop => stop) start) := by
  fun_induction foldRounds size bodyEnd id (fun _ stop => stop) start with
  | case1 start _ => exact Or.inl rfl
  | case2 start stop bounds _ ih => exact Within.trans (Or.inr bounds) ih

/-- An end lies where the expression started, or further on in the text. -/
theorem committedEnd_within {input : String} {e : Expr} {start stop : Nat}
    (h : committedEnd input e start = some stop) : Within input.utf8ByteSize start stop := by
  induction e generalizing start stop with
  | empty => simp [committedEnd] at h
  | literal text => exact within_of_stop? h
  | concat a b iha ihb =>
    simp only [committedEnd, Option.bind_eq_some_iff] at h
    obtain ⟨middle, ha, hb⟩ := h
    exact (iha ha).trans (ihb hb)
  | alternate a b iha ihb =>
    simp only [committedEnd] at h
    split at h
    · rename_i ha
      exact iha (ha.trans h)
    · exact ihb h
  | star a iha =>
    simp only [committedEnd, Option.some.injEq] at h
    exact h ▸ foldRounds_within _ _ _

/-- Induction along the rounds of a star: the last one does not move, the others go forward. -/
@[elab_as_elim]
theorem rounds_induction {input : String} {a : Expr} {motive : Nat → Prop}
    (last : ∀ start, (∀ stop, committedEnd input a start = some stop → stop = start) → motive start)
    (more : ∀ start stop, committedEnd input a start = some stop → start < stop →
      stop ≤ input.utf8ByteSize → motive stop → motive start) (start : Nat) : motive start := by
  induction hrest : input.utf8ByteSize - start using Nat.strongRecOn generalizing start with
  | _ rest ih =>
    by_cases hstop : ∃ stop, committedEnd input a start = some stop ∧ stop ≠ start
    · obtain ⟨stop, hbody, hne⟩ := hstop
      obtain rfl | ⟨hlt, hle⟩ := committedEnd_within hbody
      · exact absurd rfl hne
      · exact more start stop hbody hlt hle (ih _ (by omega) stop rfl)
    · apply last
      intro stop hbody
      exact Decidable.byContradiction fun hne => hstop ⟨stop, hbody, hne⟩

/-- A round that moves is followed by the rounds from the place that it moved to. -/
theorem foldRounds_of_move {α : Type} {last : Nat → α} {more : Nat → α → α} {input : String}
    {a : Expr} {start stop : Nat} (h : committedEnd input a start = some stop) (hne : stop ≠ start) :
    foldRounds input.utf8ByteSize (committedEnd input a) last more start =
      more start (foldRounds input.utf8ByteSize (committedEnd input a) last more stop) := by
  obtain ⟨hlt, hle⟩ := (committedEnd_within h).resolve_left hne
  exact foldRounds_of_advance h hlt hle

section Star

variable {input : String} {a : Expr} {start stop : Nat}

/-- A body that does not match, or that stays where it is, ends the star. -/
theorem committedEnd_star_of_stop (h : ∀ stop, committedEnd input a start = some stop → stop = start) :
    committedEnd input (star a) start = some start := by
  simp only [committedEnd]
  rw [foldRounds_of_last h, id]

/-- A body that moves is followed by the star at the place it moved to. -/
theorem committedEnd_star_of_advance (h : committedEnd input a start = some stop)
    (hne : stop ≠ start) :
    committedEnd input (star a) start = committedEnd input (star a) stop := by
  simp only [committedEnd]
  rw [foldRounds_of_move h hne]

theorem advances_star_of_stop (h : ∀ stop, committedEnd input a start = some stop → stop = start) :
    Advances input (star a) start ↔
      Advances input a start ∧ committedEnd input a start ≠ some start := by
  simp only [Advances]
  rw [foldRounds_of_last h]

theorem advances_star_of_advance (h : committedEnd input a start = some stop)
    (hne : stop ≠ start) :
    Advances input (star a) start ↔ Advances input a start ∧ Advances input (star a) stop := by
  simp only [Advances]
  rw [foldRounds_of_move h hne]

end Star

end CommittedRegex.Expr
