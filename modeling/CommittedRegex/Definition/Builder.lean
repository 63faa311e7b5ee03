import CommittedRegex.Definition.Basic
import CommittedRegex.MatchError

/-! # Building the expression of a definition

The expression is built by two stacks, one of tasks and one of the expressions built so far, so the
depth and the width of a definition do not matter. -/
namespace CommittedRegex.Definition

/-- What is still to be done: convert a definition, or apply a constructor to what was built last. -/
inductive Task
  | visit (definition : Definition)
  | join (operator : Operator) (arity : Nat)
  | wrap

/-- A bound on the tasks that come out of a task. -/
def Task.weight : Task → Nat
  | visit definition => 2 * definition.size
  | join _ _ => 1
  | wrap => 1

def weight : List Task → Nat
  | [] => 0
  | task :: tasks => task.weight + weight tasks

private theorem weight_cons (task : Task) (tasks : List Task) :
    weight (task :: tasks) = task.weight + weight tasks := rfl

private theorem weight_visits (operands : List Definition) (tasks : List Task) :
    weight (operands.map .visit ++ tasks) ≤ 2 * sizeAll operands + weight tasks := by
  induction operands with
  | nil => simp
  | cons first rest ih =>
    simp only [List.map_cons, List.cons_append, weight_cons, Task.weight, sizeAll]
    omega

/-- The tasks for an operator: its operands from left to right, then their joining. -/
def expand (operator : Operator) (operands : List Definition) (tasks : List Task) : List Task :=
  operands.map .visit ++ .join operator operands.length :: tasks

/-- Works off the tasks; the expression built last is the first in the list. -/
def work (built : List Expr) : List Task → Except Fault (List Expr)
  | [] => .ok built
  | .visit .empty :: tasks => work (.empty :: built) tasks
  | .visit (.literal text) :: tasks => work (.literal text :: built) tasks
  | .visit (.concat operands) :: tasks =>
    if operands.isEmpty then .error (.noOperand .concat)
    else work built (expand .concat operands tasks)
  | .visit (.alternate operands) :: tasks =>
    if operands.isEmpty then .error (.noOperand .alternate)
    else work built (expand .alternate operands tasks)
  | .visit (.star body) :: tasks => work built (.visit body :: .wrap :: tasks)
  | .join operator arity :: tasks =>
    match (built.take arity).reverse with
    | [] => .error .missingOperand
    | first :: rest => work (joinLeft operator first rest :: built.drop arity) tasks
  | .wrap :: tasks =>
    match built with
    | [] => .error .missingOperand
    | body :: built => work (.star body :: built) tasks
termination_by tasks => weight tasks
decreasing_by
  all_goals simp only [expand, weight_cons, Task.weight, size]
  · omega
  · omega
  · have := weight_visits operands (.join .concat operands.length :: tasks)
    simp only [weight_cons, Task.weight] at this
    omega
  · have := weight_visits operands (.join .alternate operands.length :: tasks)
    simp only [weight_cons, Task.weight] at this
    omega
  · omega
  · omega
  · omega

def toExpr (definition : Definition) : Except MatchError Expr :=
  match work [] [.visit definition] with
  | .error fault => .error (.invalid fault.reason)
  | .ok [] => .error (.invalid Fault.nothing.reason)
  | .ok (e :: _) => .ok e

end CommittedRegex.Definition
