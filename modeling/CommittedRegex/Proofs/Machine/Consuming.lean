import CommittedRegex.Proofs.Machine.Faithful

/-! # Stars whose bodies consume

An expression that is found without a move of the place can match the empty text, and the tree alone shows
whether it can. So if no body of a star can match the empty text, no round of a star stays where it is, and
the two policies take the same steps. -/
namespace CommittedRegex

namespace Expr

/-- The tree allows that the expression matches the empty text. -/
def nullable : Expr → Bool
  | empty => false
  | literal text => text.isEmpty
  | concat a b => a.nullable && b.nullable
  | alternate a b => a.nullable || b.nullable
  | star _ => true

/-- No body of a star can match the empty text. -/
def bodiesConsume : Expr → Bool
  | empty => true
  | literal _ => true
  | concat a b => a.bodiesConsume && b.bodiesConsume
  | alternate a b => a.bodiesConsume && b.bodiesConsume
  | star a => !a.nullable && a.bodiesConsume

variable {input : String} {e : Expr} {start : Nat}

theorem bodiesConsume_iff :
    e.bodiesConsume = true ↔ ∀ a, (star a).IsPartOf e → a.nullable = false := by
  induction e with
  | empty => exact ⟨fun _ x hx => (nomatch hx), fun _ => rfl⟩
  | literal text => exact ⟨fun _ x hx => (nomatch hx), fun _ => rfl⟩
  | concat a b iha ihb =>
    simp only [bodiesConsume, Bool.and_eq_true, iha, ihb]
    constructor
    · rintro ⟨ha, hb⟩ x hx
      cases hx with
      | left _ hx => exact ha x hx
      | right _ hx => exact hb x hx
    · intro h
      exact ⟨fun x hx => h x (.left b hx), fun x hx => h x (.right a hx)⟩
  | alternate a b iha ihb =>
    simp only [bodiesConsume, Bool.and_eq_true, iha, ihb]
    constructor
    · rintro ⟨ha, hb⟩ x hx
      cases hx with
      | first _ hx => exact ha x hx
      | second _ hx => exact hb x hx
    · intro h
      exact ⟨fun x hx => h x (.first b hx), fun x hx => h x (.second a hx)⟩
  | star a iha =>
    simp only [bodiesConsume, Bool.and_eq_true, Bool.not_eq_true', iha]
    constructor
    · rintro ⟨hbody, ha⟩ x hx
      cases hx with
      | refl => exact hbody
      | body hx => exact ha x hx
    · intro h
      exact ⟨h a (.refl _), fun x hx => h x (.body hx)⟩

/-- Only what can match the empty text ends where it starts. -/
theorem nullable_of_stay (h : committedEnd input e start = some start) : e.nullable = true := by
  induction e with
  | empty => cases h
  | literal text =>
    obtain ⟨-, -, -, -, hsize⟩ := Text.stop?_eq_some_iff.mp h
    have hempty : text.utf8ByteSize = 0 := by omega
    simpa [nullable] using hempty
  | concat a b iha ihb =>
    simp only [committedEnd, Option.bind_eq_some_iff] at h
    obtain ⟨middle, ha, hb⟩ := h
    -- Neither operand goes back, so neither has moved.
    have hforward := committedEnd_within ha
    have hback := committedEnd_within hb
    obtain rfl : middle = start := by
      unfold Within at hforward hback
      omega
    rw [nullable, iha ha, ihb hb, Bool.and_true]
  | alternate a b iha ihb =>
    rw [nullable, Bool.or_eq_true]
    rw [(isMatcher_committedEnd input).alternate, Option.or_eq_some_iff] at h
    rcases h with ha | ⟨-, hb⟩
    · exact Or.inl (iha ha)
    · exact Or.inr (ihb hb)
  | star a _ => rfl

theorem advances_of_consume (h : ∀ a, (star a).IsPartOf e → a.nullable = false) :
    Advances input e start := by
  induction e generalizing start with
  | empty => trivial
  | literal text => trivial
  | concat a b iha ihb =>
    refine ⟨iha fun x hx => h x (.left b hx), fun stop _ => ?_⟩
    exact ihb fun x hx => h x (.right a hx)
  | alternate a b iha ihb =>
    refine ⟨iha fun x hx => h x (.first b hx), fun _ => ?_⟩
    exact ihb fun x hx => h x (.second a hx)
  | star a iha =>
    have body (start : Nat) : Advances input a start := iha fun x hx => h x (.body hx)
    have moves (start : Nat) : committedEnd input a start ≠ some start := by
      intro hstay
      simpa [h a (.refl _)] using nullable_of_stay hstay
    induction start using rounds_induction with
    | last start hlast => exact (advances_star_of_stop hlast).mpr ⟨body start, moves start⟩
    | more start stop hend hlt _ ih =>
      have hne : stop ≠ start := by omega
      exact (advances_star_of_advance hend hne).mpr ⟨body start, ih⟩

end Expr

/-- Two machines of different policies go through the same moments as long as every round moves. -/
theorem Moment.runs_faithful_iff {input : String} {m last : Moment input} {n : Nat}
    (h : ∀ k next, Runs .guard k m next → next.stays = false) :
    Runs .faithful n m last ↔ Runs .guard n m last := by
  constructor
  · intro hruns
    induction hruns with
    | refl m => exact .refl m
    | step hstep _ ih =>
      have hguard := (step_faithful (h 0 _ (.refl _))).symm.trans hstep
      exact .step hguard (ih fun k next hk => h (k + 1) next (.step hguard hk))
  · intro hruns
    induction hruns with
    | refl m => exact .refl m
    | step hstep _ ih =>
      have hfaithful := (step_faithful (h 0 _ (.refl _))).trans hstep
      exact .step hfaithful (ih fun k next hk => h (k + 1) next (.step hstep hk))

/-- If no body of a star can match the empty text, the faithful machine takes the steps of the guarded one,
so it comes to an end, and the answers with their counters are the same under every limit. -/
theorem faithful_is_harmless (e : Expr)
    (h : ∀ a, (Expr.star a).IsPartOf e → a.nullable = false) (input : String) :
    (∀ maxSteps, evaluate ⟨.faithful, maxSteps⟩ e input = evaluate ⟨.guard, maxSteps⟩ e input) ∧
    (∀ n m, Moment.Runs .faithful n (e.firstMoment input) m ↔
      Moment.Runs .guard n (e.firstMoment input) m) ∧
    (∃ n last, Moment.Runs .faithful n (e.firstMoment input) last ∧
      ∃ result, last.work = .finished result) ∧
    ∃ stop stats, evaluate ⟨.faithful, none⟩ e input = .ok (stop, stats) := by
  have moves : Expr.Advances input e 0 := Expr.advances_of_consume h
  obtain ⟨last, hruns, hlast, -⟩ := advances_to_answer .faithful fun _ => moves
  refine ⟨evaluate_faithful_of_advances moves, fun n m => ?_, ?_, ?_⟩
  · exact Moment.runs_faithful_iff fun k next hk => hruns.stays_eq_false hlast hk
  · exact ⟨_, last, hruns.runs, _, hlast⟩
  · exact ⟨_, _, evaluate_of_allows (fun _ => moves) (Config.allows_of_none rfl _)⟩

/-- A star inside a star, each with a body that consumes. -/
private def layered : Expr :=
  .star (.concat (.alternate (.literal "a") (.literal "é")) (.star (.literal "b")))

theorem layered_runs_alike :
    (∀ a, (Expr.star a).IsPartOf layered → a.nullable = false) ∧
      evaluate ⟨.faithful, none⟩ layered "abbé" =
        .ok (some 5, { steps := 36, peakDepth := 3, pending := 0 }) := by
  have consume : ∀ a, (Expr.star a).IsPartOf layered → a.nullable = false :=
    Expr.bodiesConsume_iff.mp rfl
  have stop : Expr.committedEnd "abbé" layered 0 = some 5 := by decide +kernel
  have steps : Expr.stepCount "abbé" layered 0 = 35 := by decide +kernel
  have pending : Expr.pendingCount "abbé" layered 0 = 3 := by decide +kernel
  have guarded := evaluate_default layered "abbé"
  rw [stop, steps, pending] at guarded
  exact ⟨consume, ((faithful_is_harmless layered consume "abbé").1 none).trans guarded⟩

end CommittedRegex
