import CommittedRegex.Expr.Basic

/-! # Measuring a tree without recursion

The size and the depth of a tree, found by a walk that keeps the nodes still to visit on a list. The
walk needs no call stack, so a tree of any depth can be measured. Both walks find what recursion finds. -/
namespace CommittedRegex.Expr

/-- The number of nodes below a list of trees. -/
def totalCount : List Expr → Nat
  | [] => 0
  | e :: stack => e.nodeCount + totalCount stack

private theorem totalCount_cons (e : Expr) (stack : List Expr) :
    totalCount (e :: stack) = e.nodeCount + totalCount stack := rfl

/-- Counts the nodes of the trees on the stack on top of those counted before. -/
def countFrom (count : Nat) : List Expr → Nat
  | [] => count
  | empty :: stack => countFrom (count + 1) stack
  | literal _ :: stack => countFrom (count + 1) stack
  | concat a b :: stack => countFrom (count + 1) (a :: b :: stack)
  | alternate a b :: stack => countFrom (count + 1) (a :: b :: stack)
  | star a :: stack => countFrom (count + 1) (a :: stack)
termination_by stack => totalCount stack
decreasing_by all_goals simp only [totalCount_cons, nodeCount]; omega

def countNodes (e : Expr) : Nat := countFrom 0 [e]

theorem countFrom_cons (count : Nat) (e : Expr) (stack : List Expr) :
    countFrom count (e :: stack) = countFrom (count + e.nodeCount) stack := by
  induction e generalizing count stack with
  | empty => rw [countFrom, nodeCount]
  | literal text => rw [countFrom, nodeCount]
  | concat a b iha ihb => simp only [countFrom, iha, ihb, nodeCount, Nat.add_assoc]
  | alternate a b iha ihb => simp only [countFrom, iha, ihb, nodeCount, Nat.add_assoc]
  | star a iha => simp only [countFrom, iha, nodeCount, Nat.add_assoc]

/-- The walk counts every node once. -/
theorem countNodes_eq_nodeCount (e : Expr) : e.countNodes = e.nodeCount := by
  rw [countNodes, countFrom_cons, countFrom, Nat.zero_add]

/-- The deepest level reached from trees whose roots are at the given levels. -/
def deepestFrom (deepest : Nat) : List (Expr × Nat) → Nat
  | [] => deepest
  | (empty, level) :: stack => deepestFrom (max deepest level) stack
  | (literal _, level) :: stack => deepestFrom (max deepest level) stack
  | (concat a b, level) :: stack =>
    deepestFrom (max deepest level) ((a, level + 1) :: (b, level + 1) :: stack)
  | (alternate a b, level) :: stack =>
    deepestFrom (max deepest level) ((a, level + 1) :: (b, level + 1) :: stack)
  | (star a, level) :: stack => deepestFrom (max deepest level) ((a, level + 1) :: stack)
termination_by stack => totalCount (stack.map Prod.fst)
decreasing_by all_goals simp only [List.map_cons, totalCount_cons, nodeCount]; omega

def measureDepth (e : Expr) : Nat := deepestFrom 0 [(e, 1)]

/-- The levels below a node count from the node's own. -/
private theorem max_level (deepest level height : Nat) :
    max (max deepest level) (level + 1 + height - 1) = max deepest (level + height) := by
  have hbelow : level + 1 + height - 1 = level + height := by omega
  rw [hbelow, Nat.max_assoc, Nat.max_eq_right (Nat.le_add_right level height)]

private theorem root_level (level height : Nat) : level + (1 + height) - 1 = level + height := by
  omega

private theorem max_levels (deepest level a b : Nat) :
    max (max (max deepest level) (level + 1 + a - 1)) (level + 1 + b - 1) =
      max deepest (level + max a b) := by
  have hbelow : level + 1 + b - 1 = level + b := by omega
  rw [max_level, hbelow, Nat.max_assoc, Nat.add_max_add_left]

theorem deepestFrom_cons (deepest : Nat) (e : Expr) (level : Nat) (stack : List (Expr × Nat)) :
    deepestFrom deepest ((e, level) :: stack) =
      deepestFrom (max deepest (level + e.depth - 1)) stack := by
  induction e generalizing deepest level stack with
  | empty => rw [deepestFrom, depth, Nat.add_sub_cancel]
  | literal text => rw [deepestFrom, depth, Nat.add_sub_cancel]
  | concat a b iha ihb => rw [deepestFrom, iha, ihb, max_levels, depth, root_level]
  | alternate a b iha ihb => rw [deepestFrom, iha, ihb, max_levels, depth, root_level]
  | star a iha => rw [deepestFrom, iha, max_level, depth, root_level]

/-- The walk comes to the deepest leaf. -/
theorem measureDepth_eq_depth (e : Expr) : e.measureDepth = e.depth := by
  rw [measureDepth, deepestFrom_cons, deepestFrom, Nat.zero_max, Nat.add_sub_cancel_left]

end CommittedRegex.Expr
