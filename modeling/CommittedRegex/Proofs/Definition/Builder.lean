import CommittedRegex.Definition.Builder

/-! # The two stacks build what recursion builds

A definition at the top of the tasks leaves its expression at the top of the expressions built, or stops
the work with its fault, whatever other tasks and expressions wait below. A definition stands for an
expression if and only if no operand list in it is empty. -/
namespace CommittedRegex.Definition

/-- The expressions of several definitions in order, or the fault of the first one that has a fault. -/
def convertAll : List Definition → Except Fault (List Expr)
  | [] => .ok []
  | first :: rest =>
    match convert first with
    | .error fault => .error fault
    | .ok e => (convertAll rest).map (e :: ·)

theorem length_of_convertAll {operands : List Definition} {es : List Expr}
    (h : convertAll operands = .ok es) : es.length = operands.length := by
  induction operands generalizing es with
  | nil => cases h; rfl
  | cons first rest ih =>
    unfold convertAll at h
    cases hfirst : convert first with
    | error fault => simp [hfirst] at h
    | ok e =>
      cases hrest : convertAll rest with
      | error fault => simp [hfirst, hrest, Except.map] at h
      | ok others =>
        simp only [hfirst, hrest, Except.map, Except.ok.injEq] at h
        subst h
        simp [ih hrest]

theorem convertOnto_eq (operator : Operator) (left : Expr) (operands : List Definition) :
    convertOnto operator left operands = (convertAll operands).map (joinLeft operator left) := by
  induction operands generalizing left with
  | nil => rfl
  | cons first rest ih =>
    unfold convertOnto convertAll
    cases convert first with
    | error fault => rfl
    | ok e =>
      simp only [ih]
      cases convertAll rest <;> rfl

/-- The operands were built one on top of the other, so the first one lies deepest. -/
theorem work_join (operator : Operator) (first : Expr) (rest built : List Expr) (tasks : List Task) :
    work ((first :: rest).reverse ++ built) (.join operator (rest.length + 1) :: tasks) =
      work (joinLeft operator first rest :: built) tasks := by
  have length : rest.length + 1 = (first :: rest).reverse.length := by simp
  rw [work, length, List.take_left', List.drop_left', List.reverse_reverse]
  · rfl
  · rfl

/-- An operator is worked off if its operands are. -/
private theorem work_expand {operator : Operator} {first : Definition} {rest : List Definition}
    {built : List Expr} {tasks : List Task}
    (h : ∀ more, work built ((first :: rest).map .visit ++ more) =
      (convertAll (first :: rest)).bind fun es => work (es.reverse ++ built) more) :
    work built (expand operator (first :: rest) tasks) =
      (convertJoined operator (first :: rest)).bind fun e => work (e :: built) tasks := by
  rw [expand, h, convertJoined, convertAll]
  cases hfirst : convert first with
  | error fault => rfl
  | ok e =>
    simp only [convertOnto_eq]
    cases hrest : convertAll rest with
    | error fault => rfl
    | ok es =>
      have joined := work_join operator e es built tasks
      rwa [length_of_convertAll hrest] at joined

mutual

theorem work_visit (built : List Expr) (tasks : List Task) : (definition : Definition) →
    work built (.visit definition :: tasks) =
      (convert definition).bind fun e => work (e :: built) tasks
  | .empty => by rw [work]; rfl
  | .literal text => by rw [work]; rfl
  | .concat [] => by rw [work]; rfl
  | .concat (first :: rest) => by
    rw [work, if_neg (by simp), convert]
    exact work_expand fun more => work_visits built more (first :: rest)
  | .alternate [] => by rw [work]; rfl
  | .alternate (first :: rest) => by
    rw [work, if_neg (by simp), convert]
    exact work_expand fun more => work_visits built more (first :: rest)
  | .star body => by
    rw [work, work_visit built _ body, convert]
    cases convert body with
    | error fault => rfl
    | ok e =>
      simp only [Except.bind, Except.map]
      rw [work]

theorem work_visits (built : List Expr) (tasks : List Task) : (operands : List Definition) →
    work built (operands.map .visit ++ tasks) =
      (convertAll operands).bind fun es => work (es.reverse ++ built) tasks
  | [] => rfl
  | first :: rest => by
    rw [List.map_cons, List.cons_append, work_visit built _ first, convertAll]
    cases convert first with
    | error fault => rfl
    | ok e =>
      simp only [Except.bind]
      rw [work_visits (e :: built) tasks rest]
      cases convertAll rest with
      | error fault => rfl
      | ok es => simp [Except.bind, Except.map]

end

theorem toExpr_eq (definition : Definition) :
    definition.toExpr = (convert definition).mapError fun fault => .invalid fault.reason := by
  have built := work_visit [] [] definition
  unfold toExpr
  rw [built]
  cases convert definition with
  | error fault => rfl
  | ok e =>
    have hlast : ((Except.ok e : Except Fault Expr).bind fun e => work [e] []) = .ok [e] := work.eq_1 [e]
    rw [hlast]
    rfl

theorem toExpr_eq_ok_iff {definition : Definition} {e : Expr} :
    definition.toExpr = .ok e ↔ convert definition = .ok e := by
  rw [toExpr_eq]
  cases convert definition with
  | error fault => exact ⟨nofun, nofun⟩
  | ok e' =>
    exact ⟨fun h => congrArg Except.ok (Except.ok.inj h), fun h => congrArg Except.ok (Except.ok.inj h)⟩

/-! ## Definitions that stand for an expression -/

mutual

/-- No operand list in the definition is empty. -/
def IsFull : Definition → Prop
  | empty => True
  | literal _ => True
  | concat operands => operands ≠ [] ∧ AreFull operands
  | alternate operands => operands ≠ [] ∧ AreFull operands
  | star body => IsFull body

def AreFull : List Definition → Prop
  | [] => True
  | first :: rest => IsFull first ∧ AreFull rest

end

theorem areFull_append (operands others : List Definition) :
    AreFull (operands ++ others) ↔ AreFull operands ∧ AreFull others := by
  induction operands with
  | nil => simp [AreFull]
  | cons first rest ih => simp [AreFull, ih, and_assoc]

theorem exists_convertJoined_iff (operator : Operator) (operands : List Definition) :
    (∃ e, convertJoined operator operands = .ok e) ↔
      operands ≠ [] ∧ ∃ es, convertAll operands = .ok es := by
  cases operands with
  | nil => simp [convertJoined]
  | cons first rest =>
    unfold convertJoined convertAll
    cases convert first with
    | error fault => simp
    | ok e =>
      simp only [convertOnto_eq]
      cases convertAll rest <;> simp [Except.map]

mutual

theorem exists_convert_iff : (definition : Definition) →
    ((∃ e, convert definition = .ok e) ↔ definition.IsFull)
  | .empty => by simp [convert, IsFull]
  | .literal text => by simp [convert, IsFull]
  | .concat operands => by
    rw [convert, exists_convertJoined_iff, exists_convertAll_iff operands, IsFull]
  | .alternate operands => by
    rw [convert, exists_convertJoined_iff, exists_convertAll_iff operands, IsFull]
  | .star body => by
    rw [IsFull, ← exists_convert_iff body, convert]
    cases convert body <;> simp [Except.map]

theorem exists_convertAll_iff : (operands : List Definition) →
    ((∃ es, convertAll operands = .ok es) ↔ AreFull operands)
  | [] => by simp [convertAll, AreFull]
  | first :: rest => by
    rw [AreFull, ← exists_convert_iff first, ← exists_convertAll_iff rest, convertAll]
    cases convert first with
    | error fault => simp
    | ok e => cases convertAll rest <;> simp [Except.map]

end

end CommittedRegex.Definition
