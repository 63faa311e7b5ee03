import CommittedRegex.Machine.Step

/-! # Every guarded run comes to an end

The evaluation of an expression takes the counted number of steps to the resumption of its
continuation with the committed end, and leaves the store as it found it but for the layout of its
slots. A resumption takes a continuation out, so from any moment at all, whatever a caller stored
under whatever ids, the guarded machine halts. -/
namespace CommittedRegex.Moment
open CommittedRegex.Store CommittedRegex.Expr

variable {input : String}

/-- After an evaluation the end is handed over, and the store holds what it held before. -/
structure HandsOver (m next : Moment input) (result : Option Nat) (cont : ContId) (pending : Nat) :
    Prop where
  work : next.work = .resume result cont
  agrees : Agrees next.store m.store
  peak : next.store.peak = max m.store.peak (m.store.live + pending)

private theorem handsOver_leaf (m : Moment input) (result : Option Nat) (cont : ContId) :
    HandsOver m (m.turnTo (.resume result cont)) result cont 0 := by
  have := m.reachable.wellFormed.live_le_peak
  exact ⟨rfl, .refl _, by simp only [turnTo]; omega⟩

/-- The end of an operand is handed to the continuation that was stored for it, which is taken out. -/
theorem resume_pushed (policy : ZeroWidth) {m next : Moment input} {c : Continuation} {e : Expr}
    {start : Nat} {result : Option Nat} {pending : Nat}
    (h : HandsOver (m.descend c e start) next result (m.store.push c).1 pending) :
    next.repeats policy = (policy = .faithful && c.Stays result) ∧
      ∃ last, next.step policy = .ok last ∧ last.work = c.resume policy result ∧
        Agrees last.store m.store ∧
        last.store.peak = max m.store.peak (m.store.live + (1 + pending)) := by
  obtain ⟨rest, htake, agrees, peak⟩ :=
    take_push m.reachable.wellFormed next.reachable.wellFormed c h.agrees
  have hwaiting := waiting?_of_take (push_id_ne_done c m.reachable.wellFormed) htake
  refine ⟨repeats_of_resume policy h.work hwaiting, ?_⟩
  obtain ⟨reachable, hstep⟩ := step_resume policy h.work (find?_of_take htake)
  obtain rfl := eq_remove_of_take htake
  refine ⟨_, hstep, rfl, agrees, ?_⟩
  have := h.peak
  simp only [descend, peak_push, live_push] at this
  simp only
  omega

theorem advances_into (policy : ZeroWidth) {m : Moment input} {c : Continuation} {e a : Expr}
    {start : Nat} {cont : ContId} (hw : m.work = .eval e start cont)
    (hdescend : m.evaluate start cont e = m.descend c a start) :
    Advances policy 1 m (m.descend c a start) := by
  have hstep : m.step policy = .ok (m.evaluate start cont e) := step_eval hw
  rw [hdescend] at hstep
  exact .single (repeats_of_eval policy hw) hstep

/-- An operator evaluates its first operand and resumes the continuation stored for it. -/
theorem advances_descend {policy : ZeroWidth} {m : Moment input} {c : Continuation}
    {e a : Expr} {start : Nat} {cont : ContId} (hw : m.work = .eval e start cont)
    (hdescend : m.evaluate start cont e = m.descend c a start)
    (moves : policy = .faithful → ¬ c.Stays (committedEnd input a start))
    (ih : ∃ next, Advances policy (stepCount input a start) (m.descend c a start) next ∧
      HandsOver (m.descend c a start) next (committedEnd input a start) (m.store.push c).1
        (pendingCount input a start)) :
    ∃ last, Advances policy (2 + stepCount input a start) m last ∧
      last.work = c.resume policy (committedEnd input a start) ∧ Agrees last.store m.store ∧
      last.store.peak = max m.store.peak (m.store.live + (1 + pendingCount input a start)) := by
  obtain ⟨next, run, handed⟩ := ih
  obtain ⟨hrepeats, last, hstep, hlast⟩ := resume_pushed policy handed
  have first := advances_into policy hw hdescend
  have final : Advances policy 1 next last := .single (by simpa [hrepeats] using moves) hstep
  have count : 1 + (stepCount input a start + 1) = 2 + stepCount input a start := by omega
  exact ⟨last, count ▸ first.trans (run.trans final), hlast⟩

/-- A second evaluation that follows in a store that agrees with the first one's. -/
private theorem handsOver_follow {m middle next : Moment input} {result : Option Nat}
    {cont : ContId} {before pending : Nat} (agrees : Agrees middle.store m.store)
    (peak : middle.store.peak = max m.store.peak (m.store.live + before))
    (h : HandsOver middle next result cont pending) :
    HandsOver m next result cont (max before pending) := by
  have := h.peak
  have := agrees.live
  exact ⟨h.work, h.agrees.trans agrees, by omega⟩

/-- An evaluation takes the counted steps and hands the committed end over; under the faithful policy
this holds as long as no round of a star stays where it is. -/
theorem advances_eval (policy : ZeroWidth) {m : Moment input} {e : Expr} {start : Nat}
    {cont : ContId} (moves : policy = .faithful → Expr.Advances input e start)
    (hw : m.work = .eval e start cont) :
    ∃ next, Advances policy (stepCount input e start) m next ∧
      HandsOver m next (committedEnd input e start) cont (pendingCount input e start) := by
  induction e generalizing m start cont with
  | empty =>
    exact ⟨_, .single (repeats_of_eval policy hw) (step_eval hw), handsOver_leaf m _ _⟩
  | literal text =>
    exact ⟨_, .single (repeats_of_eval policy hw) (step_eval hw), handsOver_leaf m _ _⟩
  | concat a b iha ihb =>
    obtain ⟨middle, run, work, agrees, peak⟩ :=
      advances_descend hw rfl (fun _ => id) (iha (fun h => (moves h).1) rfl)
    simp only [committedEnd, stepCount, pendingCount]
    cases hend : committedEnd input a start with
    | none =>
      rw [hend] at work
      exact ⟨middle, run, work, agrees, peak⟩
    | some stop =>
      rw [hend] at work
      obtain ⟨next, run', handed⟩ := ihb (fun h => (moves h).2 stop hend) work
      exact ⟨next, run.trans run', handsOver_follow agrees peak handed⟩
  | alternate a b iha ihb =>
    obtain ⟨middle, run, work, agrees, peak⟩ :=
      advances_descend hw rfl (fun _ => id) (iha (fun h => (moves h).1) rfl)
    simp only [committedEnd, stepCount, pendingCount]
    cases hend : committedEnd input a start with
    | some stop =>
      rw [hend] at work
      exact ⟨middle, run, work, agrees, peak⟩
    | none =>
      rw [hend] at work
      obtain ⟨next, run', handed⟩ := ihb (fun h => (moves h).2 hend) work
      exact ⟨next, run.trans run', handsOver_follow agrees peak handed⟩
  | star a iha =>
    induction start using rounds_induction generalizing m with
    | last start hlast =>
      have moves' := fun h => (advances_star_of_stop hlast).mp (moves h)
      obtain ⟨middle, run, work, agrees, peak⟩ :=
        advances_descend hw rfl (fun h => (moves' h).2) (iha (fun h => (moves' h).1) rfl)
      cases hend : committedEnd input a start with
      | none =>
        rw [hend] at work
        simp only [committedEnd, stepCount, pendingCount, foldRounds_of_none hend]
        exact ⟨middle, run, work, agrees, peak⟩
      | some stop =>
        obtain rfl := hlast stop hend
        have hguard : policy = .guard := by
          cases policy with
          | guard => rfl
          | faithful => exact absurd hend (moves' rfl).2
        rw [hend] at work
        simp only [committedEnd, stepCount, pendingCount, foldRounds_of_stay hend]
        exact ⟨middle, run, by simpa [Continuation.resume, hguard] using work, agrees, peak⟩
    | more start stop hend hlt hle ih =>
      have hne : stop ≠ start := by omega
      have moves' := fun h => (advances_star_of_advance hend hne).mp (moves h)
      obtain ⟨middle, run, work, agrees, peak⟩ :=
        advances_descend hw rfl (fun _ => by simpa [Continuation.Stays, hend] using hne)
          (iha (fun h => (moves' h).1) rfl)
      rw [hend] at work
      obtain ⟨next, run', handed⟩ :=
        ih (fun h => (moves' h).2) (by simpa [Continuation.resume, hne] using work)
      simp only [committedEnd, stepCount, pendingCount] at run' handed
      simp only [committedEnd, stepCount, pendingCount, foldRounds_of_advance hend hlt hle]
      exact ⟨next, run.trans run', handsOver_follow agrees peak handed⟩

theorem runs_eval {m : Moment input} {e : Expr} {start : Nat} {cont : ContId}
    (hw : m.work = .eval e start cont) :
    ∃ next, Runs .guard (stepCount input e start) m next ∧
      HandsOver m next (committedEnd input e start) cont (pendingCount input e start) := by
  obtain ⟨next, run, handed⟩ := advances_eval .guard (fun h => nomatch h) hw
  exact ⟨next, run.runs, handed⟩

/-- The later moment is the one that follows the earlier one under the guard. -/
def Follows (later earlier : Moment input) : Prop := earlier.step .guard = .ok later

private theorem acc_of_runs {n : Nat} {m last : Moment input} (h : Runs .guard n m last)
    (hlast : Acc Follows last) : Acc Follows m := by
  induction h with
  | refl m => exact hlast
  | @step n m next last hstep _ ih =>
    refine ⟨_, fun other hother => ?_⟩
    have heq := hstep.symm.trans hother
    cases heq
    exact ih hlast

private theorem acc_finished {m : Moment input} {result : Option Nat}
    (hw : m.work = .finished result) : Acc Follows m :=
  ⟨_, fun next h => by simp [Follows, step_finished hw] at h⟩

private theorem acc_resume {m : Moment input} {result : Option Nat} {cont : ContId}
    (hw : m.work = .resume result cont) : Acc Follows m := by
  induction hlive : m.store.live using Nat.strongRecOn generalizing m result cont with
  | _ live ih =>
    refine ⟨_, fun next hnext => ?_⟩
    obtain ⟨c, htake, hwork⟩ := take_of_step_resume hw hnext
    by_cases hdone : cont = .done
    · rw [hdone, take_done] at htake
      simp only [Option.some.injEq, Prod.mk.injEq] at htake
      rw [← htake.1] at hwork
      exact acc_finished hwork
    · have fewer := (rest_of_take m.reachable.wellFormed hdone htake).1
      cases hnw : next.work with
      | finished result => exact acc_finished hnw
      | resume result cont => exact ih _ (by omega) hnw rfl
      | eval e start cont =>
        obtain ⟨last, run, handed⟩ := runs_eval hnw
        have := handed.agrees.live
        exact acc_of_runs run (ih _ (by omega) handed.work rfl)

/-- No guarded run goes on for ever. -/
theorem acc_follows (m : Moment input) : Acc Follows m := by
  cases hw : m.work with
  | finished result => exact acc_finished hw
  | resume result cont => exact acc_resume hw
  | eval e start cont =>
    obtain ⟨next, run, handed⟩ := runs_eval hw
    exact acc_of_runs run (acc_resume handed.work)

instance : WellFoundedRelation (Moment input) := ⟨Follows, ⟨acc_follows⟩⟩

end CommittedRegex.Moment
