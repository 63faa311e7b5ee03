import CommittedRegex.Proofs.Definition.Builder
import CommittedRegex.Proofs.Machine.Evaluation

/-! # What a definition means

A definition is read off its operand lists: the operands of a concatenation follow each other, and the
first operand of a choice that matches decides. The expression that a definition stands for nests its
operands to the left, and evaluating it on the machine finds the same ends. Since the lists are read
directly, a list inside a list of the same kind may as well be written out in its place. -/
namespace CommittedRegex.Definition
open Text

variable {input : String}

/-- The ends that the operands of a definition have determine the end that the definition has. -/
structure ReadsLists (input : String) (ends : Definition → Nat → Option Nat) : Prop where
  literal : ∀ text start stop,
    ends (literal text) start = some stop ↔ StandsAt text input start stop
  empty : ∀ start, ends empty start = none
  concat : ∀ operands start,
    ends (concat operands) start = operands.foldlM (fun place operand => ends operand place) start
  alternate : ∀ operands start,
    ends (alternate operands) start = operands.findSome? fun operand => ends operand start
  single : ∀ operand start, ends (.concat [operand]) start = ends operand start ∧
    ends (.alternate [operand]) start = ends operand start
  star_of_stop : ∀ body start, ends body start = none ∨ ends body start = some start →
    ends (star body) start = some start
  star_of_advance : ∀ body start stop, ends body start = some stop → stop ≠ start →
    ends (star body) start = ends (star body) stop

theorem endOfAll_eq_foldlM (operands : List Definition) (start : Nat) :
    endOfAll input operands start =
      (operands.map (committedEnd input)).foldlM (fun place ends => ends place) start := by
  induction operands generalizing start with
  | nil => rfl
  | cons first rest ih =>
    rw [endOfAll, List.map_cons, List.foldlM_cons, funext ih]
    rfl

theorem endOfFirst_eq_findSome? (operands : List Definition) (start : Nat) :
    endOfFirst input operands start =
      (operands.map (committedEnd input)).findSome? fun ends => ends start := by
  induction operands with
  | nil => rfl
  | cons first rest ih =>
    simp only [endOfFirst, List.map_cons, List.findSome?_cons, ih]
    cases committedEnd input first start <;> rfl

theorem endOfAll_append (operands others : List Definition) (start : Nat) :
    endOfAll input (operands ++ others) start =
      (endOfAll input operands start).bind (endOfAll input others) := by
  rw [funext (endOfAll_eq_foldlM others), endOfAll_eq_foldlM, endOfAll_eq_foldlM, List.map_append,
    List.foldlM_append]
  rfl

theorem endOfFirst_append (operands others : List Definition) (start : Nat) :
    endOfFirst input (operands ++ others) start =
      (endOfFirst input operands start).or (endOfFirst input others start) := by
  rw [endOfFirst_eq_findSome?, endOfFirst_eq_findSome?, endOfFirst_eq_findSome?, List.map_append,
    List.findSome?_append]

mutual

/-- An end lies where the definition started, or further on in the text. -/
theorem committedEnd_within : (definition : Definition) → {start stop : Nat} →
    definition.committedEnd input start = some stop → Expr.Within input.utf8ByteSize start stop
  | .empty, _, _, h => by simp [committedEnd] at h
  | .literal text, _, _, h => Expr.within_of_stop? h
  | .concat operands, _, _, h => endOfAll_within operands h
  | .alternate operands, _, _, h => endOfFirst_within operands h
  | .star body, start, _, h => by
    simp only [committedEnd, Option.some.injEq] at h
    exact h ▸ Expr.foldRounds_within _ _ _

theorem endOfAll_within : (operands : List Definition) → {start stop : Nat} →
    endOfAll input operands start = some stop → Expr.Within input.utf8ByteSize start stop
  | [], _, _, h => Or.inl (Option.some.inj h).symm
  | first :: rest, _, _, h => by
    obtain ⟨middle, hfirst, hrest⟩ := Option.bind_eq_some_iff.mp h
    exact (committedEnd_within first hfirst).trans (endOfAll_within rest hrest)

theorem endOfFirst_within : (operands : List Definition) → {start stop : Nat} →
    endOfFirst input operands start = some stop → Expr.Within input.utf8ByteSize start stop
  | [], _, _, h => by simp [endOfFirst] at h
  | first :: rest, start, _, h => by
    simp only [endOfFirst] at h
    split at h
    · rename_i middle hfirst
      cases h
      exact committedEnd_within first hfirst
    · exact endOfFirst_within rest h

end

theorem readsLists_committedEnd (input : String) : ReadsLists input (committedEnd input) where
  literal _ _ _ := stop?_eq_some_iff
  empty _ := rfl
  concat operands start := by rw [committedEnd, endOfAll_eq_foldlM, List.foldlM_map]
  alternate operands start := by
    rw [committedEnd, endOfFirst_eq_findSome?, List.findSome?_map]
    rfl
  single operand start := by
    simp only [committedEnd, endOfAll, endOfFirst]
    cases operand.committedEnd input start <;> exact ⟨rfl, rfl⟩
  star_of_stop body start h := by
    simp only [committedEnd]
    rcases h with h | h
    · rw [Expr.foldRounds_of_none h, id]
    · rw [Expr.foldRounds_of_stay h, id]
  star_of_advance body start stop h hne := by
    obtain rfl | ⟨hlt, hle⟩ := committedEnd_within body h
    · exact absurd rfl hne
    · simp only [committedEnd]
      rw [Expr.foldRounds_of_advance h hlt hle]

/-! ## The expression of a definition -/

/-- Concatenation is associative: nested to the left or not, each operand starts where the one before it
ended. -/
theorem committedEnd_joinLeft_concat (left : Expr) (es : List Expr) (start : Nat) :
    (joinLeft .concat left es).committedEnd input start =
      (left.committedEnd input start).bind fun place =>
        (es.map (Expr.committedEnd input)).foldlM (fun place ends => ends place) place := by
  induction es generalizing left with
  | nil => simp [joinLeft]
  | cons e es ih =>
    have step : joinLeft .concat left (e :: es) = joinLeft .concat (left.concat e) es := rfl
    rw [step, ih, Expr.committedEnd, Option.bind_assoc]
    rfl

/-- So is the choice: nested to the left or not, the first operand that matches decides. -/
theorem committedEnd_joinLeft_alternate (left : Expr) (es : List Expr) (start : Nat) :
    (joinLeft .alternate left es).committedEnd input start =
      (left.committedEnd input start).or
        ((es.map (Expr.committedEnd input)).findSome? fun ends => ends start) := by
  induction es generalizing left with
  | nil => simp [joinLeft]
  | cons e es ih =>
    have step : joinLeft .alternate left (e :: es) = joinLeft .alternate (left.alternate e) es := rfl
    rw [step, ih, Expr.committedEnd, List.map_cons, List.findSome?_cons]
    cases left.committedEnd input start with
    | some stop => rfl
    | none => cases e.committedEnd input start <;> simp

private theorem exists_of_convertJoined {operator : Operator} {operands : List Definition} {e : Expr}
    (h : convertJoined operator operands = .ok e) :
    ∃ left es, convertAll operands = .ok (left :: es) ∧ e = joinLeft operator left es := by
  cases operands with
  | nil => cases h
  | cons first rest =>
    unfold convertJoined at h
    unfold convertAll
    cases hfirst : convert first with
    | error fault => simp [hfirst] at h
    | ok left =>
      simp only [hfirst, convertOnto_eq] at h
      cases hrest : convertAll rest with
      | error fault => simp [hrest, Except.map] at h
      | ok es =>
        simp only [hrest, Except.map, Except.ok.injEq] at h
        exact ⟨left, es, rfl, h.symm⟩

mutual

/-- An expression ends where the definition that it was made of does. -/
theorem committedEnd_of_convert : (definition : Definition) → {e : Expr} →
    convert definition = .ok e → e.committedEnd input = definition.committedEnd input
  | .empty, _, h => by cases h; rfl
  | .literal text, _, h => by cases h; rfl
  | .concat operands, e, h => by
    obtain ⟨left, es, hall, rfl⟩ := exists_of_convertJoined h
    have ends := map_committedEnd_of_convertAll operands hall
    funext start
    rw [committedEnd_joinLeft_concat, committedEnd, endOfAll_eq_foldlM, ← ends, List.map_cons,
      List.foldlM_cons]
    rfl
  | .alternate operands, e, h => by
    obtain ⟨left, es, hall, rfl⟩ := exists_of_convertJoined h
    have ends := map_committedEnd_of_convertAll operands hall
    funext start
    rw [committedEnd_joinLeft_alternate, committedEnd, endOfFirst_eq_findSome?, ← ends, List.map_cons,
      List.findSome?_cons]
    cases left.committedEnd input start <;> rfl
  | .star body, e, h => by
    unfold convert at h
    cases hbody : convert body with
    | error fault => simp [hbody, Except.map] at h
    | ok inner =>
      simp only [hbody, Except.map, Except.ok.injEq] at h
      subst h
      funext start
      rw [Expr.committedEnd, committedEnd, committedEnd_of_convert body hbody]

theorem map_committedEnd_of_convertAll : (operands : List Definition) → {es : List Expr} →
    convertAll operands = .ok es → es.map (Expr.committedEnd input) = operands.map (committedEnd input)
  | [], es, h => by cases h; rfl
  | first :: rest, es, h => by
    unfold convertAll at h
    cases hfirst : convert first with
    | error fault => simp [hfirst] at h
    | ok e =>
      cases hrest : convertAll rest with
      | error fault => simp [hfirst, hrest, Except.map] at h
      | ok others =>
        simp only [hfirst, hrest, Except.map, Except.ok.injEq] at h
        subst h
        rw [List.map_cons, List.map_cons, committedEnd_of_convert first hfirst,
          map_committedEnd_of_convertAll rest hrest]

end

/-! ## Lists written out in their place -/

/-- A list of operands inside a list of the same kind is written out in its place, somewhere in the
definition. -/
inductive Splices : Definition → Definition → Prop
  | concat (before inner after : List Definition) :
      Splices (.concat (before ++ .concat inner :: after)) (.concat (before ++ inner ++ after))
  | alternate (before inner after : List Definition) :
      Splices (.alternate (before ++ .alternate inner :: after)) (.alternate (before ++ inner ++ after))
  | inConcat {d d' : Definition} (before after : List Definition) : Splices d d' →
      Splices (.concat (before ++ d :: after)) (.concat (before ++ d' :: after))
  | inAlternate {d d' : Definition} (before after : List Definition) : Splices d d' →
      Splices (.alternate (before ++ d :: after)) (.alternate (before ++ d' :: after))
  | inStar {d d' : Definition} : Splices d d' → Splices (.star d) (.star d')

section Splices

variable {d d' : Definition}

theorem Splices.committedEnd_eq (h : Splices d d') : d'.committedEnd input = d.committedEnd input := by
  induction h with
  | concat before inner after =>
    funext start
    simp only [committedEnd, endOfAll_append, endOfAll, Option.bind_assoc]
  | alternate before inner after =>
    funext start
    simp only [committedEnd, endOfFirst_append, endOfFirst, Option.or_assoc]
    cases endOfFirst input inner start <;> rfl
  | inConcat before after _ ih =>
    funext start
    simp only [committedEnd, endOfAll_append, endOfAll, ih]
  | inAlternate before after _ ih =>
    funext start
    simp only [committedEnd, endOfFirst_append, endOfFirst, ih]
  | inStar _ ih =>
    funext start
    simp only [committedEnd, ih]

theorem Splices.isFull (h : Splices d d') (hfull : d.IsFull) : d'.IsFull := by
  induction h with
  | concat before inner after =>
    simp only [IsFull, areFull_append, AreFull] at hfull ⊢
    obtain ⟨-, hbefore, ⟨hinner, hall⟩, hafter⟩ := hfull
    exact ⟨by simp [hinner], ⟨hbefore, hall⟩, hafter⟩
  | alternate before inner after =>
    simp only [IsFull, areFull_append, AreFull] at hfull ⊢
    obtain ⟨-, hbefore, ⟨hinner, hall⟩, hafter⟩ := hfull
    exact ⟨by simp [hinner], ⟨hbefore, hall⟩, hafter⟩
  | inConcat before after _ ih =>
    simp only [IsFull, areFull_append, AreFull] at hfull ⊢
    obtain ⟨-, hbefore, hd, hafter⟩ := hfull
    exact ⟨by simp, hbefore, ih hd, hafter⟩
  | inAlternate before after _ ih =>
    simp only [IsFull, areFull_append, AreFull] at hfull ⊢
    obtain ⟨-, hbefore, hd, hafter⟩ := hfull
    exact ⟨by simp, hbefore, ih hd, hafter⟩
  | inStar _ ih => exact ih hfull

end Splices

/-- The expression of a definition ends where the definition does, on the machine and wherever it
starts; and writing out lists in their place leaves every end as it is. -/
theorem definition_means_its_lists {definition : Definition} {e : Expr}
    (h : definition.toExpr = .ok e) :
    (∀ input, ReadsLists input (committedEnd input) ∧
      ∀ start, ((Machine.new input {}).drive (.eval e start .done)).1 =
        .ok (definition.committedEnd input start)) ∧
      ∀ spliced, Splices definition spliced → ∃ e', spliced.toExpr = .ok e' ∧
        ∀ input, ({} : Config).findEnd e' input = ({} : Config).findEnd e input := by
  have hconvert := toExpr_eq_ok_iff.mp h
  constructor
  · intro input
    refine ⟨readsLists_committedEnd input, fun start => ?_⟩
    rw [drive_new, committedEnd_of_convert definition hconvert]
  · intro spliced hspliced
    obtain ⟨e', he'⟩ := (exists_convert_iff spliced).mpr
      (hspliced.isFull ((exists_convert_iff definition).mp ⟨e, hconvert⟩))
    refine ⟨e', toExpr_eq_ok_iff.mpr he', fun input => ?_⟩
    rw [findEnd_default, findEnd_default, committedEnd_of_convert spliced he',
      committedEnd_of_convert definition hconvert, hspliced.committedEnd_eq]

private def nested : Definition :=
  .concat [.literal "a", .star (.alternate [.literal "b", .alternate [.empty, .literal "c"]]),
    .concat [.literal "d"]]

private def spliced : Definition :=
  .concat [.literal "a", .star (.alternate [.literal "b", .empty, .literal "c"]), .concat [.literal "d"]]

private def nestedExpr : Expr :=
  .concat (.concat (.literal "a")
    (.star (.alternate (.literal "b") (.alternate .empty (.literal "c"))))) (.literal "d")

theorem nested_means_spliced : nested.toExpr = .ok nestedExpr ∧ Splices nested spliced ∧
    (∀ input start, ((Machine.new input {}).drive (.eval nestedExpr start .done)).1 =
      .ok (nested.committedEnd input start)) ∧
    ∃ e', spliced.toExpr = .ok e' ∧
      ∀ input, ({} : Config).findEnd e' input = ({} : Config).findEnd nestedExpr input := by
  have htoExpr : nested.toExpr = .ok nestedExpr := toExpr_eq_ok_iff.mpr rfl
  have hsplices : Splices nested spliced :=
    .inConcat [.literal "a"] [.concat [.literal "d"]]
      (.inStar (.alternate [.literal "b"] [.empty, .literal "c"] []))
  obtain ⟨ends, splicing⟩ := definition_means_its_lists htoExpr
  exact ⟨htoExpr, hsplices, fun input => (ends input).2, splicing spliced hsplices⟩

end CommittedRegex.Definition
