import CommittedRegex.Proofs.Machine.Evaluation

/-!
# The faithful policy

Up to the first round of a star that does not move, both policies take the same steps. From there on
the faithful machine evaluates the body again at the same place, with the same end, so it comes back to
the same star for ever. A run of the guarded machine alone decides which of the two happens.
-/
namespace CommittedRegex
open CommittedRegex.Expr

namespace Moment

variable {input : String} {m next last : Moment input}

/-- A round that does not move is the resumption of a star with the place that it had come to. -/
theorem stays_iff : m.stays = true ↔ ∃ cont node lastGood after,
    m.work = .resume (some lastGood) cont ∧
      m.store.waiting? cont = some (.afterRepeat node lastGood after) := by
  constructor
  · intro h
    unfold stays at h
    split at h
    · rename_i result cont hwork
      split at h
      · rename_i c hc
        cases c with
        | afterRepeat node lastGood after =>
          obtain rfl : result = some lastGood := of_decide_eq_true h
          exact ⟨cont, node, lastGood, after, hwork, hc⟩
        | done => exact False.elim (of_decide_eq_true h)
        | afterConcat right after => exact False.elim (of_decide_eq_true h)
        | afterAlternate second start after => exact False.elim (of_decide_eq_true h)
      · cases h
    · cases h
  · rintro ⟨cont, node, lastGood, after, hwork, hc⟩
    simp [stays, hwork, hc, Continuation.Stays]

private theorem stays_of_finished {result : Option Nat} (h : m.work = .finished result) :
    m.stays = false := by
  simp [stays, h]

/-! ## The common part -/

theorem Advances.runs_guard {n : Nat} (h : Advances .faithful n m last) :
    Runs .guard n m last := by
  induction h with
  | refl m => exact .refl m
  | step hrepeats hstep _ ih =>
    have moves := by simpa [repeats] using hrepeats
    exact .step ((step_faithful moves).symm.trans hstep) ih

theorem Advances.stays_eq_false {n k : Nat} {result : Option Nat} (h : Advances .faithful n m last)
    (hlast : last.work = .finished result) (hruns : Runs .guard k m next) : next.stays = false := by
  induction h generalizing k with
  | refl m =>
    cases hruns with
    | refl => exact stays_of_finished hlast
    | step hstep _ => exact absurd hlast (work_ne_finished hstep result)
  | step hrepeats hstep _ ih =>
    have moves := by simpa [repeats] using hrepeats
    cases hruns with
    | refl => exact moves
    | step hguard htail =>
      rw [← step_faithful moves, hstep, Except.ok.injEq] at hguard
      subst hguard
      exact ih hlast htail

/-! ## Coming back for ever -/

/-- There is always a next step under the faithful policy. -/
def Endless (m : Moment input) : Prop := ∀ n, ∃ last, Runs .faithful n m last

theorem Endless.exists_step (h : m.Endless) : ∃ next, m.step .faithful = .ok next := by
  obtain ⟨last, hruns⟩ := h 1
  cases hruns with
  | step hstep _ => exact ⟨_, hstep⟩

theorem Endless.of_step (h : m.Endless) (hstep : m.step .faithful = .ok next) : next.Endless := by
  intro n
  obtain ⟨last, hruns⟩ := h (n + 1)
  cases hruns with
  | step hother htail =>
    rw [hstep, Except.ok.injEq] at hother
    subst hother
    exact ⟨last, htail⟩

theorem Endless.of_runs {n : Nat} (h : m.Endless) (hruns : Runs .faithful n m last) :
    last.Endless := by
  induction hruns with
  | refl m => exact h
  | step hstep _ ih => exact ih (h.of_step hstep)

theorem Endless.work_ne_finished (h : m.Endless) (result : Option Nat) :
    m.work ≠ .finished result := by
  obtain ⟨next, hstep⟩ := h.exists_step
  exact Moment.work_ne_finished hstep result

/-- A run stops early, or goes on as the moment that it leads to does. -/
private theorem exists_run {policy : ZeroWidth} {n k : Nat} (h : Runs policy n m next)
    (rest : n ≤ k → ∃ last, Runs policy (k - n) next last) : ∃ last, Runs policy k m last := by
  induction h generalizing k with
  | refl m => exact rest (Nat.zero_le k)
  | @step n m middle next hstep _ ih =>
    cases k with
    | zero => exact ⟨m, .refl m⟩
    | succ k =>
      have rest' (hle : n ≤ k) : ∃ last, Runs policy (k - n) next last := by
        simpa using rest (Nat.succ_le_succ hle)
      obtain ⟨last, hruns⟩ := ih rest'
      exact ⟨last, .step hstep hruns⟩

theorem Runs.endless {n : Nat} (h : Runs .faithful n m next) (hnext : next.Endless) :
    m.Endless := by
  intro k
  exact exists_run h fun _ => hnext (k - n)

/-- The star at hand is about to go through a round that does not move. -/
def Circles (m : Moment input) : Prop := ∃ a start cont, m.work = .eval (.star a) start cont ∧
  Expr.Advances input a start ∧ committedEnd input a start = some start

/-- The round comes to its end, stays, and leaves the machine at the same star and place. -/
theorem Circles.round (h : m.Circles) : ∃ n turn next, Advances .faithful n m turn ∧
    turn.stays = true ∧ turn.step .faithful = .ok next ∧ next.Circles := by
  obtain ⟨a, start, cont, hw, moves, hend⟩ := h
  have first : Advances .faithful 1 m (m.descend (.afterRepeat (.star a) start cont) a start) :=
    advances_into .faithful hw rfl
  obtain ⟨turn, body, handed⟩ := advances_eval .faithful (fun _ => moves)
    (rfl : (m.descend (.afterRepeat (.star a) start cont) a start).work = _)
  obtain ⟨hrepeats, next, hstep, hwork, -⟩ := resume_pushed .faithful handed
  rw [hend] at hrepeats hwork
  have stays : turn.stays = true := by simpa [repeats, Continuation.Stays] using hrepeats
  have again : next.work = .eval (.star a) start cont := by
    simpa [Continuation.resume] using hwork
  exact ⟨_, turn, next, first.trans body, stays, hstep, a, start, cont, again, moves, hend⟩

theorem Circles.endless (h : m.Circles) : m.Endless := by
  intro k
  induction k using Nat.strongRecOn generalizing m with
  | _ k ih =>
    obtain ⟨n, turn, next, hruns, -, hstep, hnext⟩ := h.round
    have once : Runs .faithful (n + 1) m next := hruns.runs.trans (.single hstep)
    exact exists_run once fun hle => ih (k - (n + 1)) (by omega) hnext

/-- An operand whose rounds all move comes to its end, which is handed to what was stored for it. -/
private theorem advances_operand {c : Continuation} {e a : Expr} {start : Nat} {cont : ContId}
    (hw : m.work = .eval e start cont) (hdescend : m.evaluate start cont e = m.descend c a start)
    (moves : Expr.Advances input a start) (hc : ¬ c.Stays (committedEnd input a start)) :
    ∃ n last, Advances .faithful n m last ∧
      last.work = c.resume .faithful (committedEnd input a start) := by
  obtain ⟨last, hruns, hwork, -⟩ := advances_descend hw hdescend (fun _ => hc)
    (advances_eval .faithful (fun _ => moves) rfl)
  exact ⟨_, last, hruns, hwork⟩

private theorem exists_circle_of_operand {c : Continuation} {e a : Expr} {start : Nat}
    {cont : ContId} (hw : m.work = .eval e start cont)
    (hdescend : m.evaluate start cont e = m.descend c a start)
    (h : ∃ n last, Advances .faithful n (m.descend c a start) last ∧ last.Circles) :
    ∃ n last, Advances .faithful n m last ∧ last.Circles := by
  obtain ⟨n, last, hruns, hlast⟩ := h
  exact ⟨_, last, (advances_into .faithful hw hdescend).trans hruns, hlast⟩

private theorem exists_circle_of_advances {n : Nat} (hruns : Advances .faithful n m next)
    (h : ∃ n last, Advances .faithful n next last ∧ last.Circles) :
    ∃ n last, Advances .faithful n m last ∧ last.Circles := by
  obtain ⟨k, last, hrest, hlast⟩ := h
  exact ⟨n + k, last, hruns.trans hrest, hlast⟩

/-- If some round does not move, the machine comes to the star whose round it is. -/
theorem exists_circle {e : Expr} {start : Nat} {cont : ContId} (hw : m.work = .eval e start cont)
    (h : ¬ Expr.Advances input e start) :
    ∃ n last, Advances .faithful n m last ∧ last.Circles := by
  induction e generalizing m start cont with
  | empty => exact absurd trivial h
  | literal text => exact absurd trivial h
  | concat a b iha ihb =>
    by_cases moves : Expr.Advances input a start
    · obtain ⟨n, middle, hruns, hwork⟩ := advances_operand hw rfl moves id
      have hb : ∃ stop, committedEnd input a start = some stop ∧ ¬ Expr.Advances input b stop := by
        simpa [Expr.Advances, moves] using h
      obtain ⟨stop, hend, hstop⟩ := hb
      rw [hend] at hwork
      exact exists_circle_of_advances hruns (ihb hwork hstop)
    · exact exists_circle_of_operand hw rfl (iha rfl moves)
  | alternate a b iha ihb =>
    by_cases moves : Expr.Advances input a start
    · obtain ⟨n, middle, hruns, hwork⟩ := advances_operand hw rfl moves id
      have hb : committedEnd input a start = none ∧ ¬ Expr.Advances input b start := by
        simpa [Expr.Advances, moves] using h
      rw [hb.1] at hwork
      exact exists_circle_of_advances hruns (ihb hwork hb.2)
    · exact exists_circle_of_operand hw rfl (iha rfl moves)
  | star a iha =>
    induction start using rounds_induction generalizing m with
    | last start hlast =>
      rw [advances_star_of_stop hlast] at h
      by_cases moves : Expr.Advances input a start
      · have hend : committedEnd input a start = some start := by simpa [moves] using h
        exact ⟨0, m, .refl m, a, start, cont, hw, moves, hend⟩
      · exact exists_circle_of_operand hw rfl (iha rfl moves)
    | more start stop hend hlt _ ih =>
      have hne : stop ≠ start := by omega
      rw [advances_star_of_advance hend hne] at h
      by_cases moves : Expr.Advances input a start
      · have hc : ¬ (Continuation.afterRepeat (.star a) start cont).Stays
            (committedEnd input a start) := by
          simpa [Continuation.Stays, hend] using hne
        obtain ⟨n, middle, hruns, hwork⟩ := advances_operand hw rfl moves hc
        have hstop : ¬ Expr.Advances input (.star a) stop := by simpa [moves] using h
        refine exists_circle_of_advances hruns (ih ?_ hstop)
        simpa [Continuation.resume, hend, hne] using hwork
      · exact exists_circle_of_operand hw rfl (iha rfl moves)

/-! ## Driving an endless run -/

variable {config : Config} {patience steps : Nat}

theorem Endless.run_limited {limit : Nat} (h : m.Endless) (hpolicy : config.zeroWidth = .faithful)
    (hmax : config.maxSteps = some limit) (hpatience : limit - steps ≤ patience) :
    (m.run config patience steps).outcome = .error (.stepLimitExceeded limit) := by
  induction hrest : limit - steps generalizing m patience steps with
  | zero =>
    have hspent : config.spent? steps = some limit := by
      simp only [Config.spent?, hmax]
      exact if_pos (by omega)
    rw [run_of_spent h.work_ne_finished hspent]
    rfl
  | succ rest ih =>
    obtain ⟨next, hstep⟩ := h.exists_step
    have hspent : config.spent? steps = none := by
      simp only [Config.spent?, hmax]
      exact if_neg (by omega)
    rw [run_of_turn hspent (fun _ => by omega) (hpolicy ▸ hstep)]
    have cost := Bool.toNat_le (m.repeats config.zeroWidth)
    exact ih (h.of_step hstep) (by omega) (by omega)

theorem Endless.run_unlimited (h : m.Endless) (hpolicy : config.zeroWidth = .faithful)
    (hmax : config.maxSteps = none) :
    (m.run config patience steps).outcome = .error .endless := by
  fun_induction Moment.run config patience steps m with
  | case1 patience steps m result hfinished => exact absurd hfinished (h.work_ne_finished result)
  | case2 patience steps m limit hspent => simp [Config.spent?, hmax] at hspent
  | case3 patience steps m => rfl
  | case4 patience steps m _ _ _ last result herror =>
    obtain ⟨next, hstep⟩ := h.exists_step
    simp [hpolicy, hstep] at herror
  | case5 patience steps m _ _ _ last id herror =>
    obtain ⟨next, hstep⟩ := h.exists_step
    simp [hpolicy, hstep] at herror
  | case6 patience steps m _ _ _ next hstep _ ih => exact ih (h.of_step (hpolicy ▸ hstep))

end Moment

/-- The guarded run resumes a star with the place that the star had come to. -/
def Expr.Stalls (e : Expr) (input : String) : Prop :=
  ∃ n m cont node lastGood after, Moment.Runs .guard n (e.firstMoment input) m ∧
    m.work = .resume (some lastGood) cont ∧
    m.store.waiting? cont = some (.afterRepeat node lastGood after)

section Answer

variable {e : Expr} {input : String}

/-- The guarded run decides whether every round moves. -/
theorem stalls_iff : e.Stalls input ↔ ¬ Expr.Advances input e 0 := by
  constructor
  · rintro ⟨n, m, cont, node, lastGood, after, hruns, hwork, hc⟩ moves
    obtain ⟨last, hadvances, hlast, -⟩ := advances_to_answer .faithful (fun _ => moves)
    have hmoves := hadvances.stays_eq_false hlast hruns
    have hstays := Moment.stays_iff.mpr ⟨cont, node, lastGood, after, hwork, hc⟩
    simp [hmoves] at hstays
  · intro hnot
    have hw : (e.firstMoment input).work = .eval e 0 .done := rfl
    obtain ⟨n, circle, before, hcircle⟩ := Moment.exists_circle hw hnot
    obtain ⟨k, turn, next, body, stays, -⟩ := hcircle.round
    obtain ⟨cont, node, lastGood, after, hwork, hc⟩ := Moment.stays_iff.mp stays
    exact ⟨_, turn, cont, node, lastGood, after, (before.trans body).runs_guard, hwork, hc⟩

theorem endless_of_not_advances (h : ¬ Expr.Advances input e 0) :
    (e.firstMoment input).Endless := by
  have hw : (e.firstMoment input).work = .eval e 0 .done := rfl
  obtain ⟨n, circle, hruns, hcircle⟩ := Moment.exists_circle hw h
  exact hruns.runs.endless hcircle.endless

theorem evaluate_faithful_of_advances (h : Expr.Advances input e 0) (maxSteps : Option Nat) :
    evaluate ⟨.faithful, maxSteps⟩ e input = evaluate ⟨.guard, maxSteps⟩ e input := by
  have moves (policy : ZeroWidth) : policy = .faithful → Expr.Advances input e 0 := fun _ => h
  by_cases allows : Config.Allows ⟨.guard, maxSteps⟩ (stepCount input e 0 + 1)
  · have hfaithful := @evaluate_of_allows ⟨.faithful, maxSteps⟩ e input (moves _) allows
    have hguard := @evaluate_of_allows ⟨.guard, maxSteps⟩ e input (moves _) allows
    exact hfaithful.trans hguard.symm
  · obtain ⟨limit, hmax, hfaithful⟩ :=
      @evaluate_of_not_allows ⟨.faithful, maxSteps⟩ e input (moves _) allows
    obtain ⟨other, hother, hguard⟩ :=
      @evaluate_of_not_allows ⟨.guard, maxSteps⟩ e input (moves _) allows
    obtain rfl := Option.some.inj (hmax.symm.trans hother)
    exact hfaithful.trans hguard.symm

theorem evaluate_limited_of_not_advances (h : ¬ Expr.Advances input e 0) (limit : Nat) :
    evaluate ⟨.faithful, some limit⟩ e input = .error (.stepLimitExceeded limit) := by
  rw [evaluate_eq_answer]
  apply Ending.answer_of_error
  apply (endless_of_not_advances h).run_limited rfl rfl
  exact Nat.le_refl (limit - 0)

theorem evaluate_unlimited_of_not_advances (h : ¬ Expr.Advances input e 0) :
    evaluate ⟨.faithful, none⟩ e input = .error .endless := by
  rw [evaluate_eq_answer]
  apply Ending.answer_of_error
  exact (endless_of_not_advances h).run_unlimited rfl rfl

/-- Only the faithful policy without a limit has matches that never end. -/
theorem evaluate_eq_endless_iff {config : Config} :
    evaluate config e input = .error .endless ↔
      config = ⟨.faithful, none⟩ ∧ (e.firstMoment input).Endless := by
  constructor
  · intro h
    have hstay : ¬ (config.zeroWidth = .faithful → Expr.Advances input e 0) := by
      intro moves
      by_cases allows : config.Allows (stepCount input e 0 + 1)
      · simp [evaluate_of_allows moves allows] at h
      · obtain ⟨limit, -, hcut⟩ := evaluate_of_not_allows moves allows
        simp [hcut] at h
    obtain ⟨hpolicy, hnot⟩ := Classical.not_imp.mp hstay
    obtain ⟨policy, maxSteps⟩ := config
    obtain rfl : policy = .faithful := hpolicy
    cases maxSteps with
    | none => exact ⟨rfl, endless_of_not_advances hnot⟩
    | some limit => simp [evaluate_limited_of_not_advances hnot limit] at h
  · rintro ⟨rfl, h⟩
    rw [evaluate_eq_answer]
    exact Ending.answer_of_error (h.run_unlimited rfl rfl)

theorem advances_of_evaluate {maxSteps : Option Nat} {answer : Option Nat × Stats}
    (h : evaluate ⟨.faithful, maxSteps⟩ e input = .ok answer) : Expr.Advances input e 0 := by
  apply Classical.byContradiction
  intro hnot
  cases maxSteps with
  | none => simp [evaluate_unlimited_of_not_advances hnot] at h
  | some limit => simp [evaluate_limited_of_not_advances hnot] at h

/-- Whatever the settings, an answer is the committed end with the counts of its evaluation. -/
theorem eq_answer_of_evaluate {config : Config} {answer : Option Nat × Stats}
    (h : evaluate config e input = .ok answer) : answer = (committedEnd input e 0,
      { steps := stepCount input e 0 + 1, peakDepth := pendingCount input e 0, pending := 0 }) := by
  have moves : config.zeroWidth = .faithful → Expr.Advances input e 0 := by
    intro hpolicy
    obtain ⟨policy, maxSteps⟩ := config
    obtain rfl : policy = .faithful := hpolicy
    exact advances_of_evaluate h
  by_cases allows : config.Allows (stepCount input e 0 + 1)
  · rw [evaluate_of_allows moves allows, Except.ok.injEq] at h
    exact h.symm
  · obtain ⟨limit, -, hcut⟩ := evaluate_of_not_allows moves allows
    simp [hcut] at h

end Answer

/-- The two policies give the same answer if the guarded run meets no round that does not move.
Otherwise the faithful machine never comes to an end, and every limit cuts it off. -/
theorem faithful_agrees_until_stall (e : Expr) (input : String) :
    (∀ maxSteps stop stats, evaluate ⟨.faithful, maxSteps⟩ e input = .ok (stop, stats) →
      evaluate ⟨.guard, maxSteps⟩ e input = .ok (stop, stats)) ∧
    (¬ e.Stalls input → ∀ maxSteps,
      evaluate ⟨.faithful, maxSteps⟩ e input = evaluate ⟨.guard, maxSteps⟩ e input) ∧
    (e.Stalls input →
      (e.firstMoment input).Endless ∧
      (∀ n m, Moment.Runs .faithful n (e.firstMoment input) m →
        ∀ result, m.work ≠ .finished result) ∧
      (∀ limit, evaluate ⟨.faithful, some limit⟩ e input = .error (.stepLimitExceeded limit)) ∧
      evaluate ⟨.faithful, none⟩ e input = .error .endless) := by
  refine ⟨?_, ?_, ?_⟩
  · intro maxSteps stop stats h
    rw [← evaluate_faithful_of_advances (advances_of_evaluate h), h]
  · intro h
    rw [stalls_iff, Classical.not_not] at h
    exact evaluate_faithful_of_advances h
  · intro h
    rw [stalls_iff] at h
    have hendless := endless_of_not_advances h
    refine ⟨hendless, ?_, evaluate_limited_of_not_advances h, evaluate_unlimited_of_not_advances h⟩
    intro n m hruns
    exact (hendless.of_runs hruns).work_ne_finished

theorem faithful_blank_star_is_cut :
    (Expr.star (.literal "")).Stalls "a" ∧
      evaluate ⟨.faithful, some 100⟩ (.star (.literal "")) "a" =
        .error (.stepLimitExceeded 100) := by
  have blank : committedEnd "a" (.literal "") 0 = some 0 :=
    Text.stop?_eq_some_iff.mpr ⟨"", "a", rfl, rfl, rfl⟩
  have stops : ∀ stop, committedEnd "a" (.literal "") 0 = some stop → stop = 0 :=
    fun stop h => Option.some.inj (h.symm.trans blank)
  have stalls : (Expr.star (.literal "")).Stalls "a" := by
    rw [stalls_iff, advances_star_of_stop stops]
    exact fun moves => moves.2 blank
  exact ⟨stalls, ((faithful_agrees_until_stall _ _).2.2 stalls).2.2.1 100⟩

end CommittedRegex
