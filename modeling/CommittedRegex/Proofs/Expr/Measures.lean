import CommittedRegex.Expr.Handle
import CommittedRegex.Expr.Measure
import Mathlib.Algebra.Group.Nat.Defs

/-! # The rounds of a measurement

A round of a walk takes one tree off the stack and puts its operands there. So both walks come to the end
of any stack after as many rounds as there are nodes below it, and what they have found then is what
recursion on the trees finds. A tree has at least as many nodes as levels, and fewer than two to the
number of its levels. -/
namespace CommittedRegex.Expr

/-- The trees below the root, the left one first. -/
def operands : Expr → List Expr
  | empty => []
  | literal _ => []
  | concat a b => [a, b]
  | alternate a b => [a, b]
  | star a => [a]

/-- One round of the walk that counts nodes: the count and the stack after it, if there is one. -/
def countRound : Nat × List Expr → Option (Nat × List Expr)
  | (_, []) => none
  | (count, e :: stack) => some (count + 1, e.operands ++ stack)

/-- One round of the walk that looks for the deepest level. -/
def levelRound : Nat × List (Expr × Nat) → Option (Nat × List (Expr × Nat))
  | (_, []) => none
  | (deepest, (e, level) :: stack) =>
    some (max deepest level, e.operands.map (fun operand => (operand, level + 1)) ++ stack)

/-- After so many rounds the walk is in a state from which there is no other round. -/
inductive EndsAfter {State : Type} (round : State → Option State) : Nat → State → State → Prop
  | stop {state : State} (h : round state = none) : EndsAfter round 0 state state
  | more {rounds : Nat} {state next last : State} (h : round state = some next)
      (rest : EndsAfter round rounds next last) : EndsAfter round (rounds + 1) state last

/-- A round takes one node away. -/
theorem totalCount_cons_eq (e : Expr) (stack : List Expr) :
    totalCount (e :: stack) = totalCount (e.operands ++ stack) + 1 := by
  cases e <;> simp only [operands, List.cons_append, List.nil_append, totalCount, nodeCount] <;> omega

theorem countFrom_round (count : Nat) (e : Expr) (stack : List Expr) :
    countFrom count (e :: stack) = countFrom (count + 1) (e.operands ++ stack) := by
  cases e <;> rw [countFrom] <;> rfl

theorem deepestFrom_round (deepest : Nat) (e : Expr) (level : Nat) (stack : List (Expr × Nat)) :
    deepestFrom deepest ((e, level) :: stack) =
      deepestFrom (max deepest level) (e.operands.map (fun operand => (operand, level + 1)) ++ stack) := by
  cases e <;> rw [deepestFrom] <;> rfl

/-- A walk of which each round leaves the answer as it was, and one round less to go, ends with it. -/
theorem endsAfter_of_round {State : Type} {round : State → Option State} (rounds : State → Nat)
    (last : State → State)
    (h : ∀ state, round state = none ∧ rounds state = 0 ∧ last state = state ∨
      ∃ next, round state = some next ∧ rounds state = rounds next + 1 ∧ last state = last next)
    (state : State) : EndsAfter round (rounds state) state (last state) := by
  induction hrounds : rounds state generalizing state with
  | zero =>
    rcases h state with ⟨hstop, -, hlast⟩ | ⟨next, -, hmore, -⟩
    · rw [hlast]
      exact .stop hstop
    · omega
  | succ n ih =>
    rcases h state with ⟨-, hzero, -⟩ | ⟨next, hround, hmore, hlast⟩
    · omega
    · rw [hlast]
      exact .more hround (ih next (by omega))

/-- Whatever has been counted, the walk counts the nodes of a stack one in a round. -/
theorem endsAfter_countRound (count : Nat) (stack : List Expr) :
    EndsAfter countRound (totalCount stack) (count, stack) (countFrom count stack, []) := by
  refine endsAfter_of_round (fun state => totalCount state.2)
    (fun state => (countFrom state.1 state.2, [])) ?_ (count, stack)
  rintro ⟨count, stack⟩
  cases stack with
  | nil => exact Or.inl ⟨rfl, rfl, by rw [countFrom]⟩
  | cons e stack => exact Or.inr ⟨_, rfl, totalCount_cons_eq e stack, by rw [countFrom_round]⟩

theorem endsAfter_levelRound (deepest : Nat) (stack : List (Expr × Nat)) :
    EndsAfter levelRound (totalCount (stack.map Prod.fst)) (deepest, stack)
      (deepestFrom deepest stack, []) := by
  refine endsAfter_of_round (fun state => totalCount (state.2.map Prod.fst))
    (fun state => (deepestFrom state.1 state.2, [])) ?_ (deepest, stack)
  rintro ⟨deepest, stack⟩
  cases stack with
  | nil => exact Or.inl ⟨rfl, rfl, by rw [deepestFrom]⟩
  | cons entry stack =>
    obtain ⟨e, level⟩ := entry
    have hrounds : (e.operands.map (fun operand => (operand, level + 1)) ++ stack).map Prod.fst =
        e.operands ++ stack.map Prod.fst := by
      simp [Function.comp_def]
    refine Or.inr ⟨_, rfl, ?_, by rw [deepestFrom_round]⟩
    rw [hrounds]
    exact totalCount_cons_eq e _

theorem depth_le_nodeCount (e : Expr) : e.depth ≤ e.nodeCount := by
  induction e with
  | empty => exact Nat.le_refl 1
  | literal text => exact Nat.le_refl 1
  | concat a b iha ihb =>
    rw [depth, nodeCount]
    omega
  | alternate a b iha ihb =>
    rw [depth, nodeCount]
    omega
  | star a iha =>
    rw [depth, nodeCount]
    omega

/-- Two trees below one root have fewer nodes than a full tree of the depth that they give it. -/
private theorem two_below {m n a b : Nat} (hm : m < 2 ^ a) (hn : n < 2 ^ b) :
    1 + m + n < 2 ^ (1 + max a b) := by
  have ha : 2 ^ a ≤ 2 ^ max a b := Nat.pow_le_pow_right (by decide) (Nat.le_max_left a b)
  have hb : 2 ^ b ≤ 2 ^ max a b := Nat.pow_le_pow_right (by decide) (Nat.le_max_right a b)
  rw [Nat.add_comm 1 (max a b), Nat.pow_succ]
  omega

theorem nodeCount_lt_two_pow_depth (e : Expr) : e.nodeCount < 2 ^ e.depth := by
  induction e with
  | empty => decide
  | literal text => exact Nat.one_lt_two
  | concat a b iha ihb => exact two_below iha ihb
  | alternate a b iha ihb => exact two_below iha ihb
  | star a iha =>
    have hbelow := two_below iha iha
    rw [Nat.max_self] at hbelow
    rw [nodeCount, depth]
    omega

/-- Both walks end, whatever stack they are begun with, and they find what recursion finds. A node that
is made of two others counts their nodes on top of itself, also if both are the same node. -/
theorem walks_measure_trees :
    (∀ count stack,
      EndsAfter countRound (totalCount stack) (count, stack) (countFrom count stack, [])) ∧
    (∀ deepest stack, EndsAfter levelRound (totalCount (stack.map Prod.fst)) (deepest, stack)
      (deepestFrom deepest stack, [])) ∧
    (∀ e : Expr, e.countNodes = e.nodeCount ∧ e.measureDepth = e.depth) ∧
    (∀ (a b : Handle) (identity : Nat),
      ((Handle.concat a b).run identity).1.expr.countNodes = 1 + a.expr.countNodes + b.expr.countNodes ∧
      ((Handle.alternate a b).run identity).1.expr.countNodes =
        1 + a.expr.countNodes + b.expr.countNodes) ∧
    ∀ e : Expr, e.measureDepth ≤ e.countNodes ∧ e.countNodes < 2 ^ e.measureDepth := by
  refine ⟨endsAfter_countRound, endsAfter_levelRound, ?_, ?_, ?_⟩
  · exact fun e => ⟨countNodes_eq_nodeCount e, measureDepth_eq_depth e⟩
  · intro a b identity
    simp only [countNodes_eq_nodeCount]
    exact ⟨rfl, rfl⟩
  · intro e
    rw [countNodes_eq_nodeCount, measureDepth_eq_depth]
    exact ⟨depth_le_nodeCount e, nodeCount_lt_two_pow_depth e⟩

end CommittedRegex.Expr
