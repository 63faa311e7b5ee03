import CommittedRegex.Proofs.Definition.Builder
import Mathlib.Logic.Relation

/-! # The stacks stay balanced

Every operator finds its operands at the top of the expressions built, and a single expression is left
when no task is. So the builder gives the tree that recursion gives, and it fails only at an operand list
that is empty: of several such lists at the one that comes first when the definition is read from its
root, each part before its operands and these from left to right. -/
namespace CommittedRegex.Definition

mutual

/-- All parts of a definition, each before its operands and these from left to right. -/
def parts : Definition → List Definition
  | empty => [empty]
  | literal text => [literal text]
  | concat operands => concat operands :: partsOfAll operands
  | alternate operands => alternate operands :: partsOfAll operands
  | star body => star body :: parts body

def partsOfAll : List Definition → List Definition
  | [] => []
  | first :: rest => parts first ++ partsOfAll rest

end

/-- The operator of a part that has no operands. -/
def bareOperator? : Definition → Option Operator
  | concat [] => some .concat
  | alternate [] => some .alternate
  | _ => none

theorem bareOperator?_eq_none {part : Definition} :
    part.bareOperator? = none ↔ part ≠ concat [] ∧ part ≠ alternate [] := by
  cases part with
  | concat operands => cases operands <;> simp [bareOperator?]
  | alternate operands => cases operands <;> simp [bareOperator?]
  | _ => simp [bareOperator?]

/-- The first operator without operands. -/
def firstBare? (definition : Definition) : Option Operator := definition.parts.findSome? bareOperator?

/-- Joins all expressions of a list from the left. -/
def joinAll (operator : Operator) : List Expr → Expr
  | [] => .empty
  | first :: rest => joinLeft operator first rest

mutual

/-- The tree of a definition in which every operator has operands. -/
def tree : Definition → Expr
  | empty => .empty
  | literal text => .literal text
  | concat operands => joinAll .concat (trees operands)
  | alternate operands => joinAll .alternate (trees operands)
  | star body => .star (tree body)

def trees : List Definition → List Expr
  | [] => []
  | first :: rest => tree first :: trees rest

end

theorem convertJoined_eq (operator : Operator) (first : Definition) (rest : List Definition) :
    convertJoined operator (first :: rest) =
      (convertAll (first :: rest)).map (joinAll operator) := by
  rw [convertJoined, convertAll]
  cases convert first with
  | error fault => rfl
  | ok e =>
    simp only [convertOnto_eq]
    cases convertAll rest <;> rfl

mutual

/-- A definition without a bare operator stands for its tree, and the first bare operator is the fault of
any other one. -/
theorem convert_eq : (definition : Definition) → convert definition =
    match definition.firstBare? with
    | none => .ok definition.tree
    | some operator => .error (.noOperand operator)
  | .empty => rfl
  | .literal text => rfl
  | .concat [] => rfl
  | .concat (first :: rest) => by
    have hfirst : (concat (first :: rest)).firstBare? =
        (partsOfAll (first :: rest)).findSome? bareOperator? := rfl
    rw [convert, convertJoined_eq, convertAll_eq (first :: rest), hfirst]
    cases (partsOfAll (first :: rest)).findSome? bareOperator? <;> rfl
  | .alternate [] => rfl
  | .alternate (first :: rest) => by
    have hfirst : (alternate (first :: rest)).firstBare? =
        (partsOfAll (first :: rest)).findSome? bareOperator? := rfl
    rw [convert, convertJoined_eq, convertAll_eq (first :: rest), hfirst]
    cases (partsOfAll (first :: rest)).findSome? bareOperator? <;> rfl
  | .star body => by
    have hbody : (star body).firstBare? = body.firstBare? := rfl
    rw [convert, convert_eq body, hbody]
    cases body.firstBare? <;> rfl

theorem convertAll_eq : (operands : List Definition) → convertAll operands =
    match (partsOfAll operands).findSome? bareOperator? with
    | none => .ok (trees operands)
    | some operator => .error (.noOperand operator)
  | [] => rfl
  | first :: rest => by
    rw [convertAll, convert_eq first, convertAll_eq rest, partsOfAll, List.findSome?_append, ← firstBare?]
    cases first.firstBare? with
    | some operator => rfl
    | none => cases (partsOfAll rest).findSome? bareOperator? <;> rfl

end

/-! ## One task at a time -/

/-- What the builder has at hand: the expressions built, the last one first, and the tasks to come. -/
structure Stacks where
  built : List Expr
  tasks : List Task

/-- What a task makes of the expressions built and of the other tasks. -/
def Task.act (built : List Expr) (tasks : List Task) : Task → Except Fault Stacks
  | visit .empty => .ok ⟨.empty :: built, tasks⟩
  | visit (.literal text) => .ok ⟨.literal text :: built, tasks⟩
  | visit (.concat operands) =>
    if operands.isEmpty then .error (.noOperand .concat) else .ok ⟨built, expand .concat operands tasks⟩
  | visit (.alternate operands) =>
    if operands.isEmpty then .error (.noOperand .alternate)
    else .ok ⟨built, expand .alternate operands tasks⟩
  | visit (.star body) => .ok ⟨built, visit body :: wrap :: tasks⟩
  | join operator arity =>
    match (built.take arity).reverse with
    | [] => .error .missingOperand
    | first :: rest => .ok ⟨joinLeft operator first rest :: built.drop arity, tasks⟩
  | wrap =>
    match built with
    | [] => .error .missingOperand
    | body :: built => .ok ⟨.star body :: built, tasks⟩

/-- The tasks are worked off one after the other. -/
theorem work_cons (built : List Expr) (task : Task) (tasks : List Task) :
    work built (task :: tasks) = (task.act built tasks).bind fun next => work next.built next.tasks := by
  cases task with
  | visit definition =>
    cases definition <;> rw [work, Task.act]
    case concat operands => split <;> rfl
    case alternate operands => split <;> rfl
    all_goals rfl
  | join operator arity =>
    rw [work, Task.act]
    cases (built.take arity).reverse <;> rfl
  | wrap => cases built <;> rw [work] <;> rfl

namespace Stacks

inductive Step : Stacks → Stacks → Prop
  | act {built : List Expr} {task : Task} {tasks : List Task} {next : Stacks}
      (h : task.act built tasks = .ok next) : Step ⟨built, task :: tasks⟩ next

/-- One comes to the other in some steps, maybe in none. -/
abbrev Leads : Stacks → Stacks → Prop := Relation.ReflTransGen Step

theorem Step.work_eq {state next : Stacks} (h : Step state next) :
    work state.built state.tasks = work next.built next.tasks := by
  obtain ⟨hact⟩ := h
  rw [work_cons, hact]
  rfl

theorem Leads.work_eq {state next : Stacks} (h : Leads state next) :
    work state.built state.tasks = work next.built next.tasks := by
  induction h with
  | refl => rfl
  | tail _ hstep ih => exact ih.trans hstep.work_eq

/-- The stacks come to an end without tasks, or to a task that has a fault. -/
def Ends (state : Stacks) : Prop :=
  (∃ result, Leads state ⟨result, []⟩) ∨ ∃ built task tasks fault,
    Leads state ⟨built, task :: tasks⟩ ∧ task.act built tasks = .error fault

theorem ends_of_fault {built : List Expr} {task : Task} {tasks : List Task} {fault : Fault}
    (h : task.act built tasks = .error fault) : Ends ⟨built, task :: tasks⟩ :=
  Or.inr ⟨built, task, tasks, fault, .refl, h⟩

theorem Ends.of_act {built : List Expr} {task : Task} {tasks : List Task} {next : Stacks}
    (hnext : next.Ends) (h : task.act built tasks = .ok next) : Ends ⟨built, task :: tasks⟩ := by
  have hstep := Step.act h
  rcases hnext with ⟨result, hleads⟩ | ⟨last, other, rest, fault, hleads, hfault⟩
  · exact Or.inl ⟨result, .head hstep hleads⟩
  · exact Or.inr ⟨last, other, rest, fault, .head hstep hleads, hfault⟩

theorem ends (built : List Expr) (tasks : List Task) : Ends ⟨built, tasks⟩ := by
  induction built, tasks using work.induct with
  | case1 built => exact Or.inl ⟨built, .refl⟩
  | case2 built tasks ih => exact ih.of_act rfl
  | case3 built text tasks ih => exact ih.of_act rfl
  | case4 built operands tasks hempty => exact ends_of_fault (if_pos hempty)
  | case5 built operands tasks hempty ih => exact ih.of_act (if_neg hempty)
  | case6 built operands tasks hempty => exact ends_of_fault (if_pos hempty)
  | case7 built operands tasks hempty ih => exact ih.of_act (if_neg hempty)
  | case8 built body tasks ih => exact ih.of_act rfl
  | case9 built operator arity tasks htaken => exact ends_of_fault (by rw [Task.act, htaken])
  | case10 built operator arity tasks first rest htaken ih => exact ih.of_act (by rw [Task.act, htaken])
  | case11 tasks => exact ends_of_fault rfl
  | case12 tasks body built ih => exact ih.of_act rfl

/-- So many expressions are enough for the tasks, and in the end a single one is left. -/
inductive Suffices : Nat → List Task → Prop
  | done : Suffices 1 []
  | visit {n : Nat} {tasks : List Task} (definition : Definition) :
      Suffices (n + 1) tasks → Suffices n (.visit definition :: tasks)
  | join {n arity : Nat} {tasks : List Task} (operator : Operator) : 0 < arity →
      Suffices (n + 1) tasks → Suffices (n + arity) (.join operator arity :: tasks)
  | wrap {n : Nat} {tasks : List Task} :
      Suffices (n + 1) tasks → Suffices (n + 1) (.wrap :: tasks)

section Suffices

variable {n : Nat} {built : List Expr} {task : Task} {tasks : List Task}

theorem Suffices.visits {operands : List Definition} (h : Suffices (n + operands.length) tasks) :
    Suffices n (operands.map .visit ++ tasks) := by
  induction operands generalizing n with
  | nil => exact h
  | cons first rest ih =>
    apply Suffices.visit
    apply ih
    rwa [Nat.add_assoc, Nat.add_comm 1]

/-- An operator brings as many operands as it takes away. -/
theorem Suffices.expand {operands : List Definition} (operator : Operator) (hne : operands ≠ [])
    (h : Suffices (n + 1) tasks) : Suffices n (expand operator operands tasks) :=
  visits (.join operator (List.length_pos_iff.mpr hne) h)

theorem Suffices.of_visit {definition : Definition} (h : Suffices n (.visit definition :: tasks)) :
    Suffices (n + 1) tasks := by
  cases h with
  | visit _ hrest => exact hrest

theorem Suffices.eq_one (h : Suffices n []) : n = 1 := by
  cases h with
  | done => rfl

theorem Suffices.of_join {operator : Operator} {arity : Nat}
    (h : Suffices n (.join operator arity :: tasks)) :
    0 < arity ∧ arity ≤ n ∧ Suffices (n - arity + 1) tasks := by
  cases h with
  | @join n _ _ _ hpos hrest =>
    refine ⟨hpos, Nat.le_add_left arity n, ?_⟩
    rwa [Nat.add_sub_cancel]

theorem Suffices.of_wrap (h : Suffices n (.wrap :: tasks)) : 0 < n ∧ Suffices n tasks := by
  cases h with
  | wrap hrest => exact ⟨Nat.succ_pos _, hrest⟩

end Suffices

def Balanced (state : Stacks) : Prop := Suffices state.built.length state.tasks

section Balanced

variable {built : List Expr} {task : Task} {tasks : List Task} {state next : Stacks}

/-- A task has what it needs and leaves what the others need, unless it visits a bare operator. -/
theorem Balanced.act (h : Balanced ⟨built, task :: tasks⟩) :
    (∃ next, task.act built tasks = .ok next ∧ next.Balanced) ∨
      ∃ operator, task.act built tasks = .error (.noOperand operator) := by
  cases task with
  | visit definition =>
    have hrest : Suffices (built.length + 1) tasks := h.of_visit
    cases definition with
    | empty => exact Or.inl ⟨_, rfl, hrest⟩
    | literal text => exact Or.inl ⟨_, rfl, hrest⟩
    | concat operands =>
      cases operands with
      | nil => exact Or.inr ⟨.concat, rfl⟩
      | cons first rest => exact Or.inl ⟨_, rfl, hrest.expand .concat (List.cons_ne_nil first rest)⟩
    | alternate operands =>
      cases operands with
      | nil => exact Or.inr ⟨.alternate, rfl⟩
      | cons first rest => exact Or.inl ⟨_, rfl, hrest.expand .alternate (List.cons_ne_nil first rest)⟩
    | star body => exact Or.inl ⟨_, rfl, .visit body (.wrap hrest)⟩
  | join operator arity =>
    obtain ⟨hpos, hle, hrest⟩ : 0 < arity ∧ arity ≤ built.length ∧ _ := h.of_join
    cases htaken : (built.take arity).reverse with
    | nil =>
      have hlength := congrArg List.length htaken
      simp only [List.length_reverse, List.length_take, List.length_nil] at hlength
      omega
    | cons first others =>
      refine Or.inl ⟨_, by rw [Task.act, htaken], ?_⟩
      simpa [Balanced] using hrest
  | wrap =>
    obtain ⟨hpos, hrest⟩ : 0 < built.length ∧ _ := h.of_wrap
    cases built with
    | nil => exact absurd hpos (Nat.lt_irrefl 0)
    | cons body built => exact Or.inl ⟨_, rfl, hrest⟩

theorem Balanced.of_step (h : state.Balanced) (hstep : Step state next) : next.Balanced := by
  obtain ⟨hact⟩ := hstep
  rcases h.act with ⟨other, hother, hnext⟩ | ⟨operator, hfault⟩
  · obtain rfl := Except.ok.inj (hother.symm.trans hact)
    exact hnext
  · cases hfault.symm.trans hact

theorem Balanced.of_leads (h : state.Balanced) (hleads : Leads state next) : next.Balanced := by
  induction hleads with
  | refl => exact h
  | tail _ hstep ih => exact ih.of_step hstep

end Balanced

/-- The builder comes to these stacks when it builds the expression of the definition. -/
def Reached (definition : Definition) (state : Stacks) : Prop :=
  Leads ⟨[], [.visit definition]⟩ state

theorem Reached.balanced {definition : Definition} {state : Stacks} (h : Reached definition state) :
    state.Balanced := by
  have begins : Balanced ⟨[], [.visit definition]⟩ := .visit definition .done
  exact begins.of_leads h

/-- A definition has its expression exactly if the builder comes to that expression alone. -/
theorem toExpr_eq_ok_iff_reached {definition : Definition} {e : Expr} :
    definition.toExpr = .ok e ↔ Reached definition ⟨[e], []⟩ := by
  constructor
  · intro h
    rw [toExpr] at h
    rcases ends [] [.visit definition] with ⟨result, hleads⟩ | ⟨last, task, rest, fault, hleads, hfault⟩
    · have hwork : work [] [.visit definition] = work result [] := hleads.work_eq
      obtain ⟨last, rfl⟩ := List.length_eq_one_iff.mp (Reached.balanced hleads).eq_one
      rw [hwork, work] at h
      obtain rfl := Except.ok.inj h
      exact hleads
    · have hwork : work [] [.visit definition] = work last (task :: rest) := hleads.work_eq
      rw [hwork, work_cons, hfault] at h
      cases h
  · intro h
    have hwork : work [] [.visit definition] = work [e] [] := Leads.work_eq h
    rw [toExpr, hwork, work]

end Stacks

theorem toExpr_eq_tree (definition : Definition) : definition.toExpr =
    match definition.firstBare? with
    | none => .ok definition.tree
    | some operator => .error (.invalid (operator.name ++ " needs at least one operand")) := by
  rw [toExpr_eq, convert_eq]
  cases definition.firstBare? <;> rfl

theorem exists_toExpr_iff {definition : Definition} : (∃ e, definition.toExpr = .ok e) ↔
    ∀ part ∈ definition.parts, part ≠ concat [] ∧ part ≠ alternate [] := by
  have hfull : definition.firstBare? = none ↔
      ∀ part ∈ definition.parts, part ≠ concat [] ∧ part ≠ alternate [] := by
    simp only [firstBare?, List.findSome?_eq_none_iff, bareOperator?_eq_none]
  rw [toExpr_eq_tree, ← hfull]
  cases definition.firstBare? <;> simp

theorem name_append_ne (operator : Operator) :
    operator.name ++ " needs at least one operand" ≠ "missing operand" ∧
      operator.name ++ " needs at least one operand" ≠ "empty pattern" := by
  cases operator <;> decide

/-- The builder gives the tree of the definition, or it blames the first operator without operands, and
that is the only fault there is. No operator ever asks for more expressions than were built, and one that
has nothing left to do has built a single one. -/
theorem builder_gives_tree (definition : Definition) :
    (definition.toExpr = match definition.parts.findSome? bareOperator? with
      | none => .ok definition.tree
      | some operator => .error (.invalid (operator.name ++ " needs at least one operand"))) ∧
    ((∃ e, definition.toExpr = .ok e) ↔
      ∀ part ∈ definition.parts, part ≠ concat [] ∧ part ≠ alternate []) ∧
    definition.toExpr ≠ .error (.invalid "missing operand") ∧
    definition.toExpr ≠ .error (.invalid "empty pattern") ∧
    (∀ e, definition.toExpr = .ok e ↔ Stacks.Reached definition ⟨[e], []⟩) ∧
    ∀ state, Stacks.Reached definition state →
      (∀ operator arity tasks, state.tasks = .join operator arity :: tasks →
        0 < arity ∧ arity ≤ state.built.length) ∧
      (∀ tasks, state.tasks = .wrap :: tasks → 0 < state.built.length) ∧
      (state.tasks = [] → state.built.length = 1) := by
  have htree := toExpr_eq_tree definition
  refine ⟨htree, exists_toExpr_iff, ?_, ?_, fun e => Stacks.toExpr_eq_ok_iff_reached, ?_⟩
  · rw [htree]
    cases definition.firstBare? with
    | none => simp
    | some operator => simpa using (name_append_ne operator).1
  · rw [htree]
    cases definition.firstBare? with
    | none => simp
    | some operator => simpa using (name_append_ne operator).2
  · intro state hreached
    have hbalanced : Stacks.Suffices state.built.length state.tasks := hreached.balanced
    refine ⟨?_, ?_, ?_⟩
    · intro operator arity tasks htasks
      rw [htasks] at hbalanced
      exact ⟨hbalanced.of_join.1, hbalanced.of_join.2.1⟩
    · intro tasks htasks
      rw [htasks] at hbalanced
      exact hbalanced.of_wrap.1
    · intro htasks
      rw [htasks] at hbalanced
      exact hbalanced.eq_one

/-- The inner list without operands comes before the outer one. -/
theorem inner_bare_operator_is_blamed :
    (concat [star (alternate [literal "a", alternate []]), concat []]).toExpr =
      .error (.invalid "Alternate needs at least one operand") :=
  (builder_gives_tree _).1.trans rfl

end CommittedRegex.Definition
