import CommittedRegex.Proofs.Expr.Language
import CommittedRegex.Proofs.Machine.Frames
import CommittedRegex.Proofs.Machine.Limit

/-! # The places of a run

A caller may start work at any offset, also behind the end of the input or inside a character. The
places that a run comes to are those that the caller supplied and character boundaries of the input,
since only a literal leads to a new place, and only where it stands in the input. At an offset that is
no place of the input nothing stands, so the end is then the same for every input. -/
namespace CommittedRegex
open CommittedRegex.Expr Text

namespace Expr

variable {input : String} {e : Expr} {start stop : Nat}

/-! ## Ends -/

/-- The expression matches, without a move, at an offset that is no place of the input. -/
def matchesOffPlace : Expr → Bool
  | empty => false
  | literal _ => false
  | concat a b => a.matchesOffPlace && b.matchesOffPlace
  | alternate a b => a.matchesOffPlace || b.matchesOffPlace
  | star _ => true

theorem committedEnd_off_place (h : ¬ IsBoundary input start) :
    committedEnd input e start = if e.matchesOffPlace then some start else none := by
  induction e with
  | empty => rfl
  | literal word =>
    simp only [committedEnd, matchesOffPlace]
    cases hstop : stop? word input start with
    | none => rfl
    | some stop => exact absurd (stop?_eq_some_iff.mp hstop).isBoundary_start h
  | concat a b iha ihb =>
    by_cases ha : a.matchesOffPlace = true
    · simp [committedEnd, matchesOffPlace, iha, ihb, ha]
    · simp [committedEnd, matchesOffPlace, iha, ha]
  | alternate a b iha ihb =>
    by_cases ha : a.matchesOffPlace = true
    · simp [committedEnd, matchesOffPlace, iha, ha]
    · simp [committedEnd, matchesOffPlace, iha, ihb, ha]
  | star a iha =>
    apply committedEnd_star_of_stop
    intro stop hbody
    rw [iha] at hbody
    split at hbody
    · exact (Option.some.inj hbody).symm
    · cases hbody

theorem isBoundary_of_committedEnd (hstart : IsBoundary input start)
    (h : committedEnd input e start = some stop) : IsBoundary input stop := by
  obtain ⟨before, after, rfl, rfl⟩ := hstart
  have hinput := @String.toList_append before after
  rw [← width_toList] at h
  obtain ⟨word, -, ⟨rest, hrest⟩, rfl⟩ := exists_word_of_committedEnd hinput h
  refine ⟨before ++ String.ofList word, String.ofList rest, ?_, ?_⟩
  · simp [← String.toList_inj, ← hrest]
  · simp [width]

/-- An expression stays where it starts, or goes from one character boundary to a later one. -/
theorem committedEnd_cases (h : committedEnd input e start = some stop) :
    stop = start ∨ start < stop ∧ stop ≤ input.utf8ByteSize ∧ IsBoundary input start ∧
      IsBoundary input stop := by
  obtain rfl | ⟨hlt, hle⟩ := committedEnd_within h
  · exact Or.inl rfl
  · right
    by_cases hstart : IsBoundary input start
    · exact ⟨hlt, hle, hstart, isBoundary_of_committedEnd hstart h⟩
    · rw [committedEnd_off_place hstart] at h
      split at h
      · obtain rfl := Option.some.inj h
        exact absurd hlt (Nat.lt_irrefl _)
      · cases h

end Expr

/-! ## Places that a run comes to -/

/-- The continuations that wait go back to such places only. -/
def Store.KeepsTo (places : Nat → Prop) (store : Store) : Prop :=
  ∀ id c, store.waiting? id = some c → ∀ place ∈ c.place?, places place

section Store

variable {places : Nat → Prop} {store rest : Store} {c : Continuation} {id : ContId}

theorem Store.keepsTo_empty : Store.empty.KeepsTo places := by
  intro id c hc
  rw [Store.waiting?_empty] at hc
  cases hc

theorem Store.KeepsTo.push (h : store.KeepsTo places) (hwell : store.WellFormed)
    (hc : ∀ place ∈ c.place?, places place) : (store.push c).2.KeepsTo places := by
  intro id d hd
  rw [Store.waiting?_push c hwell] at hd
  split at hd
  · obtain rfl := Option.some.inj hd
    exact hc
  · exact h id d hd

theorem Store.KeepsTo.take (h : store.KeepsTo places) (hwell : store.WellFormed)
    (htake : store.take id = some (c, rest)) : rest.KeepsTo places :=
  fun other d hd => h other d (Store.waiting?_of_rest hwell htake hd)

end Store

namespace Moment

/-- All places at the moment are such places. -/
structure KeepsTo {input : String} (places : Nat → Prop) (m : Moment input) : Prop where
  work : ∀ place ∈ m.work.place?, places place
  store : m.store.KeepsTo places

variable {input : String} {places : Nat → Prop} {policy : ZeroWidth} {m next last : Moment input}

theorem KeepsTo.descend (h : m.KeepsTo places) {c : Continuation} {a : Expr} {start : Nat}
    (hstart : places start) (hc : ∀ place ∈ c.place?, place = start) :
    (m.descend c a start).KeepsTo places where
  work := by
    rintro place ⟨⟩
    exact hstart
  store := h.store.push m.reachable.wellFormed fun place hplace => hc place hplace ▸ hstart

theorem KeepsTo.evaluate (h : m.KeepsTo places)
    (hplaces : ∀ place, IsBoundary input place → places place) {e : Expr} {start : Nat}
    {cont : ContId} (hw : m.work = .eval e start cont) :
    (m.evaluate start cont e).KeepsTo places := by
  have hstart : places start := h.work start (by rw [hw]; rfl)
  cases e with
  | empty => exact ⟨by rintro place ⟨⟩, h.store⟩
  | literal word =>
    refine ⟨fun stop hstop => hplaces stop ?_, h.store⟩
    exact (stop?_eq_some_iff.mp hstop).isBoundary_stop
  | concat a b =>
    apply h.descend hstart
    rintro place ⟨⟩
  | alternate a b =>
    apply h.descend hstart
    rintro place ⟨⟩
    rfl
  | star a =>
    apply h.descend hstart
    rintro place ⟨⟩
    rfl

/-- A step leads to no place but character boundaries of the input. -/
theorem KeepsTo.step (h : m.KeepsTo places)
    (hplaces : ∀ place, IsBoundary input place → places place)
    (hstep : m.step policy = .ok next) : next.KeepsTo places := by
  cases hw : m.work with
  | finished result => exact absurd hw (work_ne_finished hstep result)
  | eval e start cont =>
    rw [step_eval hw, Except.ok.injEq] at hstep
    exact hstep ▸ h.evaluate hplaces hw
  | resume result cont =>
    obtain ⟨c, htake, hwork⟩ := take_of_step_resume hw hstep
    refine ⟨?_, h.store.take m.reachable.wellFormed htake⟩
    intro place hplace
    rw [hwork] at hplace
    -- The work goes on at the place that was handed over, or at the one that the continuation kept.
    rcases c.place?_resume policy result with heq | heq
    · exact h.work place (by rw [hw]; exact heq ▸ hplace)
    · by_cases hdone : cont = .done
      · rw [hdone, Store.take_done] at htake
        obtain ⟨rfl, -⟩ := Prod.mk.inj (Option.some.inj htake)
        rw [heq] at hplace
        cases hplace
      · exact h.store cont c (Store.waiting?_of_take hdone htake) place (heq ▸ hplace)

theorem KeepsTo.of_runs {n : Nat} (h : m.KeepsTo places)
    (hplaces : ∀ place, IsBoundary input place → places place) (hruns : Runs policy n m last) :
    last.KeepsTo places := by
  induction hruns with
  | refl m => exact h
  | step hstep _ ih => exact ih (h.step hplaces hstep)

end Moment

namespace Machine

/-- A machine to which a caller has supplied such places only. -/
inductive Supplied (places : Nat → Prop) : Machine → Prop
  | new (input : String) (config : Config) : Supplied places (.new input config)
  | push {machine : Machine} {c : Continuation} : Supplied places machine →
      (∀ place ∈ c.place?, places place) → Supplied places (machine.push c).2
  | drive {machine : Machine} {work : WorkItem} : Supplied places machine →
      (∀ place ∈ work.place?, places place) → Supplied places (machine.drive work).2

variable {places : Nat → Prop} {machine : Machine} {work : WorkItem}

/-- The places that a caller supplies and the character boundaries of the input. -/
def Allowed (machine : Machine) (places : Nat → Prop) (place : Nat) : Prop :=
  places place ∨ IsBoundary machine.input place

theorem Supplied.store (h : machine.Supplied places) :
    machine.store.KeepsTo (machine.Allowed places) := by
  induction h with
  | new input config => exact Store.keepsTo_empty
  | @push machine c _ hc ih =>
    exact ih.push machine.reachable.wellFormed fun place hplace => Or.inl (hc place hplace)
  | @drive machine work _ hwork ih =>
    have first : (machine.moment work).KeepsTo (machine.Allowed places) :=
      ⟨fun place hplace => Or.inl (hwork place hplace), ih⟩
    obtain ⟨n, last, hruns, hstore⟩ := (machine.moment work).exists_runs_store machine.config
      (machine.config.patience machine.store machine.steps) machine.steps
    have heq : (machine.drive work).2.store = last.store := hstore
    rw [heq]
    exact (first.of_runs (fun _ => Or.inr) hruns).store

theorem Supplied.of_runs (h : machine.Supplied places)
    (hwork : ∀ place ∈ work.place?, places place) {policy : ZeroWidth} {n : Nat}
    {m : Moment machine.input} (hruns : Moment.Runs policy n (machine.moment work) m) :
    m.KeepsTo (machine.Allowed places) := by
  have first : (machine.moment work).KeepsTo (machine.Allowed places) :=
    ⟨fun place hplace => Or.inl (hwork place hplace), h.store⟩
  exact first.of_runs (fun _ => Or.inr) hruns

end Machine

/-- A literal that is found ends in the input. -/
theorem Moment.exists_step_literal {input : String} {m : Moment input} {word : String} {start : Nat}
    {cont : ContId} (policy : ZeroWidth) (hw : m.work = .eval (.literal word) start cont) :
    ∃ next result, m.step policy = .ok next ∧ next.work = .resume result cont ∧
      ∀ stop ∈ result, stop = start + word.utf8ByteSize ∧ stop ≤ input.utf8ByteSize := by
  refine ⟨_, stop? word input start, step_eval hw, rfl, fun stop hstop => ?_⟩
  have stands := stop?_eq_some_iff.mp hstop
  have hle := stands.stop_le
  obtain ⟨-, -, -, -, rfl⟩ := stands
  exact ⟨rfl, hle⟩

/-- From any offset at all, also one that is no place of the input, an evaluation stays or goes on to a
later character boundary, and at an offset that is no place its result is the same for every input. A
run comes to no places but those supplied to the machine and character boundaries, and finds no literal
that ends behind the input. -/
theorem places_stay_safe :
    (∀ (machine : Machine) (e : Expr) (start : Nat), ∃ result : Option Nat,
      (∀ cont, ∃ n next, Moment.Runs .guard n (machine.moment (.eval e start cont)) next ∧
        next.work = .resume result cont) ∧
      (machine.config.zeroWidth = .guard →
        (machine.drive (.eval e start .done)).1 = .ok result ∨
          ∃ limit, machine.config.maxSteps = some limit ∧
            (machine.drive (.eval e start .done)).1 = .error (.stepLimitExceeded limit)) ∧
      (result = none ∨ result = some start ∨ ∃ stop, result = some stop ∧ start < stop ∧
        stop ≤ machine.input.utf8ByteSize ∧ IsBoundary machine.input start ∧
        IsBoundary machine.input stop) ∧
      (¬ IsBoundary machine.input start →
        result = if e.matchesOffPlace then some start else none)) ∧
    ∀ (places : Nat → Prop) (machine : Machine), machine.Supplied places →
      ∀ work : WorkItem, (∀ place ∈ work.place?, places place) →
        ∀ n m, Moment.Runs machine.config.zeroWidth n (machine.moment work) m →
          m.KeepsTo (machine.Allowed places) ∧
          ∀ word start cont, m.work = .eval (.literal word) start cont →
            ∃ next result, m.step machine.config.zeroWidth = .ok next ∧
              next.work = .resume result cont ∧ ∀ stop ∈ result,
                stop = start + word.utf8ByteSize ∧ stop ≤ machine.input.utf8ByteSize := by
  constructor
  · intro machine e start
    refine ⟨committedEnd machine.input e start, ?_, ?_, ?_, committedEnd_off_place⟩
    · intro cont
      have hw : (machine.moment (.eval e start cont)).work = .eval e start cont := rfl
      obtain ⟨next, run, handed⟩ := Moment.runs_eval hw
      exact ⟨_, next, run, handed.work⟩
    · intro hpolicy
      exact Machine.drive_eval_done hpolicy e start
    · cases hend : committedEnd machine.input e start with
      | none => exact Or.inl rfl
      | some stop =>
        rcases committedEnd_cases hend with rfl | hmoves
        · exact Or.inr (Or.inl rfl)
        · exact Or.inr (Or.inr ⟨stop, rfl, hmoves⟩)
  · intro places machine hsupplied work hwork n m hruns
    refine ⟨hsupplied.of_runs hwork hruns, fun word start cont hw => ?_⟩
    exact Moment.exists_step_literal _ hw

/-- A machine whose caller has stored the largest 64-bit offset, far behind the end of the input. -/
private def stranded : Machine :=
  ((Machine.new "é" {}).push (.afterAlternate (.literal "é") (2 ^ 64 - 1) .done)).2

private theorem supplied_stranded : stranded.Supplied (· < 2 ^ 64) := by
  apply Machine.Supplied.push (.new "é" {})
  rintro place ⟨⟩
  decide

theorem stranded_stays_safe :
    stranded.Supplied (· < 2 ^ 64) ∧
      (∃ m, Moment.Runs .guard 1 (stranded.moment (.resume none ⟨1⟩)) m ∧
        m.work = .eval (.literal "é") (2 ^ 64 - 1) .done ∧
        m.KeepsTo (stranded.Allowed (· < 2 ^ 64)) ∧
        ∃ next, m.step .guard = .ok next ∧ next.work = .resume none .done) ∧
      ¬ IsBoundary "é" 1 ∧
      (stranded.drive (.eval (.alternate (.literal "é") (.star (.literal ""))) 1 .done)).1 =
        .ok (some 1) := by
  have inside : ¬ IsBoundary "é" 1 := by
    rw [← isValid_iff_isBoundary]
    decide
  refine ⟨supplied_stranded, ?_, inside, ?_⟩
  · have hfind : stranded.store.find? ⟨1⟩ =
        some (.afterAlternate (.literal "é") (2 ^ 64 - 1) .done) := rfl
    have hw : (stranded.moment (.resume none ⟨1⟩)).work = .resume none ⟨1⟩ := rfl
    obtain ⟨reachable, hstep⟩ := Moment.step_resume .guard hw hfind
    obtain ⟨keeps, hliteral⟩ := places_stay_safe.2 (· < 2 ^ 64) stranded supplied_stranded
      (.resume none ⟨1⟩) (by rintro _ ⟨⟩) 1 _ (.single hstep)
    obtain ⟨next, result, hnext, hresult, hstop⟩ := hliteral "é" (2 ^ 64 - 1) .done rfl
    refine ⟨_, .single hstep, rfl, keeps, next, hnext, ?_⟩
    cases result with
    | none => exact hresult
    | some stop =>
      obtain ⟨heq, hle⟩ := hstop stop rfl
      have hsize : stranded.input.utf8ByteSize = 2 := rfl
      omega
  · obtain ⟨result, -, hdrive, -, hoff⟩ := places_stay_safe.1 stranded
      (.alternate (.literal "é") (.star (.literal ""))) 1
    rcases hdrive rfl with hdrive | ⟨limit, hmax, -⟩
    · rw [hdrive, hoff inside]
      rfl
    · cases hmax

end CommittedRegex
