import CommittedRegex.Proofs.Machine.Evaluation
import CommittedRegex.Proofs.Store.Stack

/-! # The frames of an evaluation

While a new machine evaluates an expression, its store is a stack: each frame leads to the one below it,
and the work at hand leads to the topmost one. A frame owes a part of the expression, and the places that
frames go back to do not decrease from the bottom to the top, nor lie behind the place at hand. A step
keeps all this, whatever the policy, so no evaluation ever meets an unknown id. -/
namespace CommittedRegex

namespace Continuation

/-- The id of the continuation to be resumed afterwards. -/
def next? : Continuation → Option ContId
  | done => none
  | afterConcat _ next => some next
  | afterAlternate _ _ next => some next
  | afterRepeat _ _ next => some next

/-- The place that the continuation may go back to. -/
def place? : Continuation → Option Nat
  | done => none
  | afterConcat _ _ => none
  | afterAlternate _ start _ => some start
  | afterRepeat _ lastGood _ => some lastGood

/-- What the continuation still has to evaluate is a part of the expression, and a star if it repeats. -/
def Owes (whole : Expr) : Continuation → Prop
  | done => False
  | afterConcat right _ => right.IsPartOf whole
  | afterAlternate second _ _ => second.IsPartOf whole
  | afterRepeat node _ _ => node.IsPartOf whole ∧ ∃ a, node = .star a

end Continuation

namespace WorkItem

def cont? : WorkItem → Option ContId
  | eval _ _ cont => some cont
  | resume _ cont => some cont
  | finished _ => none

/-- The place that the work has come to, unless it hands over a failure. -/
def place? : WorkItem → Option Nat
  | eval _ start _ => some start
  | resume result _ => result
  | finished result => result

def expr? : WorkItem → Option Expr
  | eval e _ _ => some e
  | resume _ _ => none
  | finished _ => none

end WorkItem

namespace Continuation

variable {whole : Expr} {policy : ZeroWidth} {result : Option Nat} {c : Continuation}

theorem cont?_resume {next : ContId} (h : c.next? = some next) :
    (c.resume policy result).cont? = some next := by
  cases c with
  | done => cases h
  | afterConcat right after => cases result <;> exact h
  | afterAlternate second start after => cases result <;> exact h
  | afterRepeat node lastGood after =>
    cases result with
    | none => exact h
    | some stop =>
      simp only [resume]
      split <;> exact h

/-- Work goes on at the place that was handed over, or where the continuation goes back to. -/
theorem place?_resume (c : Continuation) (policy : ZeroWidth) (result : Option Nat) :
    (c.resume policy result).place? = result ∨ (c.resume policy result).place? = c.place? := by
  cases c with
  | done => exact Or.inl rfl
  | afterConcat right after => cases result <;> exact Or.inl rfl
  | afterAlternate second start after =>
    cases result with
    | none => exact Or.inr rfl
    | some stop => exact Or.inl rfl
  | afterRepeat node lastGood after =>
    cases result with
    | none => exact Or.inr rfl
    | some stop =>
      left
      simp only [resume]
      split <;> rfl

theorem Owes.resume (h : c.Owes whole) :
    ∀ e ∈ (c.resume policy result).expr?, e.IsPartOf whole := by
  cases c with
  | done => cases h
  | afterConcat right after =>
    cases result with
    | none => rintro e ⟨⟩
    | some stop =>
      rintro e ⟨⟩
      exact h
  | afterAlternate second start after =>
    cases result with
    | none =>
      rintro e ⟨⟩
      exact h
    | some stop => rintro e ⟨⟩
  | afterRepeat node lastGood after =>
    cases result with
    | none => rintro e ⟨⟩
    | some stop =>
      simp only [Continuation.resume]
      split
      · rintro e ⟨⟩
      · rintro e ⟨⟩
        exact h.1

end Continuation

/-- None of the frames goes back to a place behind this one. -/
def AtMost (frames : List Continuation) (place : Nat) : Prop :=
  ∀ c ∈ frames, ∀ start ∈ c.place?, start ≤ place

/-- Frames above each other, the list from the top down: each leads to the one below and owes a part of
the expression, and none of those below goes back to a place behind its own. -/
def Tower (whole : Expr) : List Continuation → Prop
  | [] => True
  | c :: below => c.next? = some ⟨below.length⟩ ∧ c.Owes whole ∧
      (∀ place ∈ c.place?, AtMost below place) ∧ Tower whole below

section Tower

variable {whole : Expr} {frames below : List Continuation} {c : Continuation} {place stop : Nat}

theorem AtMost.mono (h : AtMost frames place) (hle : place ≤ stop) : AtMost frames stop :=
  fun c hc start hstart => (h c hc start hstart).trans hle

theorem AtMost.tail (h : AtMost (c :: below) place) : AtMost below place :=
  fun d hd => h d (List.mem_cons_of_mem c hd)

theorem AtMost.cons (h : AtMost below place) (hc : ∀ start ∈ c.place?, start ≤ place) :
    AtMost (c :: below) place := by
  intro d hd
  rcases List.mem_cons.mp hd with rfl | hbelow
  · exact hc
  · exact h d hbelow

theorem Tower.of_suffix (h : Tower whole frames) (hsuffix : below <:+ frames) :
    Tower whole below := by
  induction frames with
  | nil => rwa [List.suffix_nil.mp hsuffix]
  | cons c frames ih =>
    rcases List.suffix_cons_iff.mp hsuffix with rfl | hsuffix
    · exact h
    · exact ih h.2.2.2 hsuffix

end Tower

namespace Moment

variable {input : String} {whole : Expr} {policy : ZeroWidth} {m next last : Moment input}
variable {frames : List Continuation}

/-- The frames are the store, and the work at hand belongs on top of them. -/
structure Stacked (whole : Expr) (m : Moment input) (frames : List Continuation) : Prop where
  store : m.store.IsStack frames
  tower : Tower whole frames
  cont : m.work.cont? = some ⟨frames.length⟩
  expr : ∀ e ∈ m.work.expr?, e.IsPartOf whole
  place : ∀ place ∈ m.work.place?, AtMost frames place

theorem stacked_firstMoment (e : Expr) (input : String) : (e.firstMoment input).Stacked e [] where
  store := Store.isStack_empty
  tower := trivial
  cont := rfl
  expr := by
    rintro _ ⟨⟩
    exact .refl e
  place := by
    rintro place - c hc
    cases hc

theorem Stacked.turnTo (h : m.Stacked whole frames) {start : Nat} {result : Option Nat}
    (hplace : AtMost frames start)
    (hresult : ∀ stop ∈ result, start ≤ stop) :
    (m.turnTo (.resume result ⟨frames.length⟩)).Stacked whole frames where
  store := h.store
  tower := h.tower
  cont := rfl
  expr := by rintro e ⟨⟩
  place := fun stop hstop => hplace.mono (hresult stop hstop)

theorem Stacked.descend (h : m.Stacked whole frames) {c : Continuation} {a : Expr} {start : Nat}
    (hnext : c.next? = some ⟨frames.length⟩) (howes : c.Owes whole) (ha : a.IsPartOf whole)
    (hplace : AtMost frames start) (hc : ∀ place ∈ c.place?, place = start) :
    (m.descend c a start).Stacked whole (c :: frames) where
  store := h.store.push m.reachable.wellFormed c
  tower := by
    refine ⟨hnext, howes, ?_, h.tower⟩
    intro place hplace'
    rwa [hc place hplace']
  cont := congrArg some (h.store.push_id m.reachable.wellFormed c)
  expr := by
    rintro e ⟨⟩
    exact ha
  place := by
    rintro place ⟨⟩
    exact hplace.cons fun place hplace' => Nat.le_of_eq (hc place hplace')

theorem Stacked.evaluate (h : m.Stacked whole frames) {e : Expr} {start : Nat} {cont : ContId}
    (hw : m.work = .eval e start cont) :
    ∃ frames, (m.evaluate start cont e).Stacked whole frames := by
  have hcont := h.cont
  have hexpr := h.expr
  have hplace := h.place
  rw [hw] at hcont hexpr hplace
  obtain rfl : cont = ⟨frames.length⟩ := Option.some.inj hcont
  have part : e.IsPartOf whole := hexpr e rfl
  have atMost : AtMost frames start := hplace start rfl
  cases e with
  | empty =>
    refine ⟨frames, h.turnTo atMost ?_⟩
    intro stop hstop
    cases hstop
  | literal text =>
    refine ⟨frames, h.turnTo atMost ?_⟩
    intro stop hstop
    exact (Text.stop?_eq_some_iff.mp hstop).start_le
  | concat a b =>
    have ha : a.IsPartOf whole := (Expr.IsPartOf.left b (.refl a)).trans part
    have hb : b.IsPartOf whole := (Expr.IsPartOf.right a (.refl b)).trans part
    refine ⟨_, h.descend rfl hb ha atMost ?_⟩
    intro place hc
    cases hc
  | alternate a b =>
    have ha : a.IsPartOf whole := (Expr.IsPartOf.first b (.refl a)).trans part
    have hb : b.IsPartOf whole := (Expr.IsPartOf.second a (.refl b)).trans part
    refine ⟨_, h.descend rfl hb ha atMost ?_⟩
    intro place hc
    exact (Option.some.inj hc).symm
  | star a =>
    have ha : a.IsPartOf whole := (Expr.IsPartOf.body (.refl a)).trans part
    refine ⟨_, h.descend rfl ⟨part, a, rfl⟩ ha atMost ?_⟩
    intro place hc
    exact (Option.some.inj hc).symm

/-- A step keeps the stack, or it ends the evaluation with nothing left on it. -/
theorem Stacked.step (h : m.Stacked whole frames) (policy : ZeroWidth) :
    ∃ next, m.step policy = .ok next ∧ ((∃ frames, next.Stacked whole frames) ∨
      ∃ result, next.work = .finished result ∧ next.store.live = 0) := by
  cases hw : m.work with
  | finished result =>
    have hcont := h.cont
    rw [hw] at hcont
    cases hcont
  | eval e start cont => exact ⟨_, step_eval hw, Or.inl (h.evaluate hw)⟩
  | resume result cont =>
    obtain ⟨hstore, htower, hcont, -, hplace⟩ := h
    rw [hw] at hcont hplace
    obtain rfl : cont = ⟨frames.length⟩ := Option.some.inj hcont
    cases frames with
    | nil =>
      have hfind : m.store.find? ⟨0⟩ = some .done := rfl
      obtain ⟨reachable, hstep⟩ := step_resume policy hw hfind
      refine ⟨_, hstep, Or.inr ⟨result, rfl, ?_⟩⟩
      exact hstore.live
    | cons c below =>
      obtain ⟨hnext, howes, hbelow, htail⟩ := htower
      obtain ⟨reachable, hstep⟩ := step_resume policy hw hstore.find?_top
      refine ⟨_, hstep, Or.inl ⟨below, hstore.remove_top m.reachable.wellFormed, htail, ?_, ?_, ?_⟩⟩
      · exact Continuation.cont?_resume hnext
      · exact howes.resume
      · intro place hresume
        rcases c.place?_resume policy result with heq | heq
        · exact (hplace place (heq ▸ hresume)).tail
        · exact hbelow place (heq ▸ hresume)

theorem Stacked.of_runs {n : Nat} (h : m.Stacked whole frames) (hruns : Runs policy n m last) :
    (∃ frames, last.Stacked whole frames) ∨
      ∃ result, last.work = .finished result ∧ last.store.live = 0 := by
  induction hruns generalizing frames with
  | refl m => exact Or.inl ⟨frames, h⟩
  | step hstep htail ih =>
    obtain ⟨next, hnext, hcases⟩ := h.step policy
    rw [hstep, Except.ok.injEq] at hnext
    subst hnext
    rcases hcases with ⟨frames, hstacked⟩ | ⟨result, hfinished, hlive⟩
    · exact ih hstacked
    · cases htail with
      | refl => exact Or.inr ⟨result, hfinished, hlive⟩
      | step hother _ => exact absurd hfinished (work_ne_finished hother result)

/-- However a run from a stack ends, it does so at no unknown id, and with a result only when nothing is
left on the stack. -/
theorem Stacked.run (h : m.Stacked whole frames) (config : Config) (patience steps : Nat) :
    (∀ id, (m.run config patience steps).outcome ≠ .error (.unknownContinuation id)) ∧
      ∀ result, (m.run config patience steps).outcome = .ok result →
        (m.run config patience steps).store.live = 0 := by
  obtain ⟨n, last, hruns, hending⟩ := m.exists_ending config patience steps
  rcases hending with ⟨halt, hhalt, hrun⟩ | ⟨error, hcause, hrun⟩
  · rw [hrun]
    rcases h.of_runs hruns with ⟨frames, hstacked⟩ | ⟨result, hfinished, hlive⟩
    · obtain ⟨next, hstep, -⟩ := hstacked.step config.zeroWidth
      simp [hstep] at hhalt
    · obtain rfl := Except.error.inj ((step_finished hfinished).symm.trans hhalt)
      exact ⟨fun id hid => (nomatch hid), fun result _ => hlive⟩
  · rw [hrun]
    rcases hcause with rfl | ⟨limit, rfl⟩
    · exact ⟨fun id hid => (nomatch hid), fun result hok => (nomatch hok)⟩
    · exact ⟨fun id hid => (nomatch hid), fun result hok => (nomatch hok)⟩

/-- The store is a stack of the frames of an evaluation: the slots in use are the first ones, each holds a
frame that leads to the slot below, and the work at hand leads to the topmost. -/
structure IsStack (whole : Expr) (m : Moment input) : Prop where
  occupied : ∀ index : Nat, (∃ c, m.store.slots[index]? = some (some c)) ↔ index ≤ m.store.live
  frame : ∀ index < m.store.live, ∃ c : Continuation, m.store.slots[index + 1]? = some (some c) ∧
    c.next? = some ⟨index⟩ ∧ c.Owes whole ∧
      ∀ place ∈ c.place?, ∀ current ∈ m.work.place?, place ≤ current
  cont : m.work.cont? = some ⟨m.store.live⟩
  free : m.store.free = List.range' (m.store.live + 1) (m.store.peak - m.store.live)

theorem Stacked.isStack (h : m.Stacked whole frames) : m.IsStack whole where
  occupied index := by
    rw [h.store.live]
    exact h.store.slot_iff m.reachable.wellFormed index
  frame := by
    intro index hindex
    rw [h.store.live] at hindex
    obtain ⟨c, below, hsuffix, rfl, hwaiting⟩ := h.store.holds.exists_frame hindex
    obtain ⟨hnext, howes, -⟩ := h.tower.of_suffix hsuffix
    refine ⟨c, Store.slot_of_waiting? hwaiting, hnext, howes, ?_⟩
    intro place hc current hcurrent
    exact h.place current hcurrent c (hsuffix.subset List.mem_cons_self) place hc
  cont := by rw [h.store.live, h.cont]
  free := by rw [h.store.live, h.store.free]

end Moment

theorem Ending.outcome_of_answer_error {ending : Ending} {error : MatchError}
    (h : ending.answer = .error error) : ending.outcome = .error error := by
  cases houtcome : ending.outcome with
  | error other =>
    rw [answer_of_error houtcome] at h
    rw [Except.error.inj h]
  | ok result => simp [answer, houtcome, Except.map] at h

theorem Ending.outcome_of_answer_ok {ending : Ending} {stop : Option Nat} {stats : Stats}
    (h : ending.answer = .ok (stop, stats)) :
    ending.outcome = .ok stop ∧ stats.pending = ending.store.live := by
  cases houtcome : ending.outcome with
  | error other => simp [answer_of_error houtcome] at h
  | ok result =>
    rw [answer, houtcome] at h
    obtain ⟨rfl, rfl⟩ := Prod.mk.inj (Except.ok.inj h)
    exact ⟨rfl, rfl⟩

/-- While a new machine evaluates an expression, its store is a stack, whatever the policy and however
long the run. So no evaluation comes to an unknown id, and one that has an answer leaves nothing behind. -/
theorem evaluation_keeps_stack (e : Expr) (input : String) :
    (∀ policy n m, Moment.Runs policy n (e.firstMoment input) m →
      (∀ result, m.work ≠ .finished result) → m.IsStack e) ∧
    (∀ config id, evaluate config e input ≠ .error (.unknownContinuation id)) ∧
    ∀ config stop stats, evaluate config e input = .ok (stop, stats) → stats.pending = 0 := by
  have first := Moment.stacked_firstMoment e input
  refine ⟨?_, ?_, ?_⟩
  · intro policy n m hruns hwork
    rcases first.of_runs hruns with ⟨frames, hstacked⟩ | ⟨result, hfinished, -⟩
    · exact hstacked.isStack
    · exact absurd hfinished (hwork result)
  · intro config id h
    rw [evaluate_eq_answer] at h
    exact (first.run config _ 0).1 id (Ending.outcome_of_answer_error h)
  · intro config stop stats h
    rw [evaluate_eq_answer] at h
    obtain ⟨houtcome, hpending⟩ := Ending.outcome_of_answer_ok h
    rw [hpending]
    exact (first.run config _ 0).2 stop houtcome

end CommittedRegex
