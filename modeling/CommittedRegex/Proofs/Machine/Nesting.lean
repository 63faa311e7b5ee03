import CommittedRegex.Expr.Measure
import CommittedRegex.Proofs.Machine.Frames
import CommittedRegex.Proofs.Machine.Limit

/-! # How many frames wait

A frame waits for the first operand of its operator only. A second operand is evaluated when the frame is
gone, and a star goes into its next round likewise, so the stack of an evaluation is as high as first
operands and bodies are nested, whatever the input and however long the run, also one that never ends.
Each place on the stack keeps room for what the frame there still owes. -/
namespace CommittedRegex

namespace Expr

/-- The largest number of frames that may wait at the same time. -/
def nesting : Expr → Nat
  | empty => 0
  | literal _ => 0
  | concat a b => max (1 + a.nesting) b.nesting
  | alternate a b => max (1 + a.nesting) b.nesting
  | star a => 1 + a.nesting

/-- The number of operators on the way that always takes the first operand, or the only one. -/
def firstWay : Expr → Nat
  | empty => 0
  | literal _ => 0
  | concat a _ => 1 + a.firstWay
  | alternate a _ => 1 + a.firstWay
  | star a => 1 + a.firstWay

theorem nesting_lt_depth (e : Expr) : e.nesting < e.depth := by
  induction e with
  | empty => exact Nat.zero_lt_one
  | literal text => exact Nat.zero_lt_one
  | concat a b iha ihb =>
    simp only [nesting, depth]
    omega
  | alternate a b iha ihb =>
    simp only [nesting, depth]
    omega
  | star a iha =>
    simp only [nesting, depth]
    omega

/-- Every evaluation goes down the first way. -/
theorem firstWay_le_pendingCount (e : Expr) (input : String) (start : Nat) :
    e.firstWay ≤ pendingCount input e start := by
  induction e generalizing start with
  | empty => exact Nat.le_refl 0
  | literal text => exact Nat.le_refl 0
  | concat a b iha ihb =>
    have first := iha start
    simp only [firstWay, pendingCount]
    split <;> omega
  | alternate a b iha ihb =>
    have first := iha start
    simp only [firstWay, pendingCount]
    split <;> omega
  | star a iha =>
    have first := iha start
    simp only [firstWay, pendingCount]
    rw [foldRounds]
    split <;> omega

end Expr

/-- What a continuation has evaluated when it is resumed, if anything. -/
def Continuation.owed? : Continuation → Option Expr
  | done => none
  | afterConcat right _ => some right
  | afterAlternate second _ _ => some second
  | afterRepeat node _ _ => some node

theorem Continuation.owed?_of_resume {c : Continuation} {policy : ZeroWidth} {result : Option Nat}
    {e : Expr} (h : e ∈ (c.resume policy result).expr?) : e ∈ c.owed? := by
  cases c with
  | done => cases h
  | afterConcat right next =>
    cases result with
    | none => cases h
    | some stop => exact h
  | afterAlternate second start next =>
    cases result with
    | none => exact h
    | some stop => cases h
  | afterRepeat node lastGood next =>
    cases result with
    | none => cases h
    | some stop =>
      simp only [resume] at h
      split at h
      · cases h
      · exact h

namespace Moment

variable {input : String} {whole : Expr} {policy : ZeroWidth} {height n : Nat}
variable {m next last : Moment input} {frames : List Continuation}

/-- What is evaluated and what the frames owe fits on the stack where it will be evaluated. -/
structure Fits (height : Nat) (m : Moment input) : Prop where
  peak : m.store.peak ≤ height
  work : ∀ e ∈ m.work.expr?, m.store.live + e.nesting ≤ height
  owed : ∀ index c, m.store.waiting? ⟨index + 1⟩ = some c →
    ∀ e ∈ c.owed?, index + e.nesting ≤ height

theorem fits_firstMoment (e : Expr) (input : String) : (e.firstMoment input).Fits e.nesting where
  peak := Nat.zero_le _
  work := by
    rintro _ ⟨⟩
    exact Nat.le_of_eq (Nat.zero_add _)
  owed := by
    intro index c hc
    have hnone := Store.waiting?_empty ⟨index + 1⟩
    exact absurd (hc.symm.trans hnone) (by simp)

theorem Fits.turnTo (h : m.Fits height) (result : Option Nat) (cont : ContId) :
    (m.turnTo (.resume result cont)).Fits height :=
  ⟨h.peak, fun _ he => (nomatch he), h.owed⟩

/-- There is room for a frame if there is room for the operand above it. -/
theorem Fits.descend (h : m.Fits height) (hstore : m.store.IsStack frames) {c : Continuation}
    {a : Expr} {start : Nat} (ha : m.store.live + (1 + a.nesting) ≤ height)
    (hc : ∀ e ∈ c.owed?, m.store.live + e.nesting ≤ height) : (m.descend c a start).Fits height where
  peak := by
    have := h.peak
    simp only [Moment.descend, Store.peak_push]
    omega
  work := by
    rintro _ ⟨⟩
    simp only [Moment.descend, Store.live_push]
    omega
  owed := by
    intro index d hd e he
    simp only [Moment.descend] at hd
    rw [Store.waiting?_push c m.reachable.wellFormed,
      hstore.push_id m.reachable.wellFormed] at hd
    split at hd
    · rename_i htop
      obtain rfl := Option.some.inj hd
      obtain rfl : index = m.store.live := by
        rw [hstore.live]
        exact Nat.succ.inj (ContId.mk.inj htop)
      exact hc e he
    · exact h.owed index d hd e he

theorem Fits.evaluate (h : m.Fits height) (hstore : m.store.IsStack frames) {e : Expr} {start : Nat}
    {cont : ContId} (hw : m.work = .eval e start cont) :
    (m.evaluate start cont e).Fits height := by
  have hroom : m.store.live + e.nesting ≤ height := h.work e (by rw [hw]; rfl)
  cases e with
  | empty => exact h.turnTo none cont
  | literal text => exact h.turnTo _ cont
  | concat a b =>
    simp only [Expr.nesting] at hroom
    apply h.descend hstore (by omega)
    rintro _ ⟨⟩
    omega
  | alternate a b =>
    simp only [Expr.nesting] at hroom
    apply h.descend hstore (by omega)
    rintro _ ⟨⟩
    omega
  | star a =>
    apply h.descend hstore hroom
    rintro _ ⟨⟩
    exact hroom

theorem Fits.step (h : m.Fits height) (hstack : m.Stacked whole frames)
    (hstep : m.step policy = .ok next) : next.Fits height := by
  cases hw : m.work with
  | finished result => exact absurd hw (work_ne_finished hstep result)
  | eval e start cont =>
    rw [step_eval hw, Except.ok.injEq] at hstep
    exact hstep ▸ h.evaluate hstack.store hw
  | resume result cont =>
    obtain ⟨c, htake, hwork⟩ := take_of_step_resume hw hstep
    have hcont := hstack.cont
    rw [hw] at hcont
    obtain rfl : cont = ⟨frames.length⟩ := Option.some.inj hcont
    have hwell := m.reachable.wellFormed
    refine ⟨Store.peak_take hwell htake ▸ h.peak, fun e he => ?_, fun index d hd => ?_⟩
    · rw [hwork] at he
      have howed := Continuation.owed?_of_resume he
      cases frames with
      | nil =>
        have hdone : m.store.take ⟨0⟩ = some (.done, m.store) := Store.take_done _
        obtain ⟨rfl, -⟩ := Prod.mk.inj (Option.some.inj (hdone.symm.trans htake))
        cases howed
      | cons top below =>
        -- What is evaluated next takes the place of the frame that owed it.
        have hne : (⟨(top :: below).length⟩ : ContId) ≠ .done := by simp [ContId.done]
        have hlive := (Store.rest_of_take hwell hne htake).1
        have hlength : m.store.live = below.length + 1 := hstack.store.live
        have hroom := h.owed below.length c (Store.waiting?_of_take hne htake) e howed
        omega
    · exact h.owed index d (Store.waiting?_of_rest hwell htake hd)

/-- The room suffices all along a run, however long it is. -/
theorem Fits.of_runs (h : m.Fits height) (hstack : m.Stacked whole frames)
    (hruns : Runs policy n m last) : last.Fits height := by
  induction hruns generalizing frames with
  | refl m => exact h
  | step hstep htail ih =>
    have hfits := h.step hstack hstep
    obtain ⟨next, hnext, hcases⟩ := hstack.step policy
    rw [hstep, Except.ok.injEq] at hnext
    subst hnext
    rcases hcases with ⟨frames, hstacked⟩ | ⟨result, hfinished, -⟩
    · exact ih hfits hstacked
    · cases htail with
      | refl => exact hfits
      | step hother _ => exact absurd hfinished (work_ne_finished hother result)

end Moment

namespace Expr

variable {e : Expr} {input : String}

theorem nesting_add_one_le_measureDepth (e : Expr) : e.nesting + 1 ≤ e.measureDepth := by
  rw [measureDepth_eq_depth]
  exact e.nesting_lt_depth

/-- At every moment there are no more frames than the expression has nesting, nor more slots than it has
levels. -/
theorem store_le_of_runs {policy : ZeroWidth} {n : Nat} {m : Moment input}
    (h : Moment.Runs policy n (e.firstMoment input) m) :
    m.store.live ≤ e.nesting ∧ m.store.peak ≤ e.nesting ∧ m.store.slots.size ≤ e.measureDepth := by
  have hpeak :=
    ((Moment.fits_firstMoment e input).of_runs (Moment.stacked_firstMoment e input) h).peak
  have hlive := m.reachable.wellFormed.live_le_peak
  have hsize := m.reachable.wellFormed.size_eq_peak
  have hdepth := e.nesting_add_one_le_measureDepth
  omega

theorem pendingCount_le_nesting (e : Expr) (input : String) :
    pendingCount input e 0 ≤ e.nesting := by
  obtain ⟨last, hadvances, -, hpeak, -⟩ := advances_to_answer .guard (fun h => nomatch h)
  exact hpeak ▸ (store_le_of_runs hadvances.runs).2.1

end Expr

/-- Under either policy and any limit, also in a run that never ends, the frames that wait are bounded by
the nesting of the expression, and the slots by its depth. A run with an answer has come down the first
way. -/
theorem depth_follows_nesting (e : Expr) (input : String) :
    (∀ policy n m, Moment.Runs policy n (e.firstMoment input) m →
      m.store.live ≤ e.nesting ∧ m.store.peak ≤ e.nesting ∧
        m.store.slots.size ≤ e.measureDepth) ∧
    (∀ config left, ((Machine.new input config).drive (.eval e 0 .done)).2 = left →
      left.stats.pending ≤ e.nesting ∧ left.stats.peakDepth ≤ e.nesting ∧
        left.store.slots.size ≤ e.measureDepth) ∧
    e.nesting + 1 ≤ e.measureDepth ∧
    ∀ config stop stats, evaluate config e input = .ok (stop, stats) →
      e.firstWay ≤ stats.peakDepth ∧ stats.peakDepth ≤ e.nesting := by
  have ofDrive (config : Config) (left : Machine)
      (h : ((Machine.new input config).drive (.eval e 0 .done)).2 = left) :
      left.stats.pending ≤ e.nesting ∧ left.stats.peakDepth ≤ e.nesting ∧
        left.store.slots.size ≤ e.measureDepth := by
    subst h
    obtain ⟨n, last, hruns, hstore⟩ :=
      (e.firstMoment input).exists_runs_store config (config.patience .empty 0) 0
    have hbounds := Expr.store_le_of_runs hruns
    rw [← hstore] at hbounds
    exact hbounds
  refine ⟨fun policy n m => Expr.store_le_of_runs, ofDrive, e.nesting_add_one_le_measureDepth, ?_⟩
  intro config stop stats h
  obtain ⟨-, rfl⟩ := Prod.mk.inj (eq_answer_of_evaluate h)
  exact ⟨e.firstWay_le_pendingCount input 0, e.pendingCount_le_nesting input⟩

end CommittedRegex
