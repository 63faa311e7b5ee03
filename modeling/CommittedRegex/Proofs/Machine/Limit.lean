import CommittedRegex.Proofs.Machine.Faithful
import Mathlib.Data.ENat.Lattice

/-! # The step limit

A limit cuts a run off and changes nothing else. A run without a limit processes some number of items,
maybe infinitely many. If the steps that are left allow them all, driving does the same with and without
the limit; otherwise driving stops where the unlimited run is after as many items as are left, and from
then on a caller can only finish. -/
namespace CommittedRegex
open CommittedRegex.Expr

/-- The items that a halt processes itself: an unknown id is met by an item, the end of the whole by
none. -/
def Halt.cost {input : String} : Halt input → Nat
  | finished _ _ => 0
  | unknown _ _ => 1

namespace Moment

variable {input : String} {policy : ZeroWidth} {m next last : Moment input} {halt : Halt input}
variable {n k : Nat}

/-! ## The length of a run -/

theorem halt_cases (h : m.step policy = .error halt) :
    (∃ result, m.work = .finished result ∧ halt = .finished m result) ∨
      ∃ result id, m.work = .resume result id ∧ m.store.find? id = none ∧ halt = .unknown m id := by
  cases hw : m.work with
  | finished result =>
    exact Or.inl ⟨result, rfl, Except.error.inj (h.symm.trans (step_finished hw))⟩
  | eval e start cont => simp [step_eval hw] at h
  | resume result id =>
    cases hfind : m.store.find? id with
    | none =>
      have heq := Except.error.inj (h.symm.trans (step_resume_of_none hw hfind))
      exact Or.inr ⟨result, id, rfl, hfind, heq⟩
    | some c =>
      obtain ⟨_, hstep⟩ := step_resume policy hw hfind
      simp [hstep] at h

/-- A run that halts goes through every moment that can be run to. -/
theorem Runs.of_halts (h : Runs policy n m last) (hlast : last.step policy = .error halt)
    (hruns : Runs policy k m next) : ∃ rest, n = k + rest ∧ Runs policy rest next last := by
  induction hruns generalizing n with
  | refl m => exact ⟨n, (Nat.zero_add n).symm, h⟩
  | step hstep _ ih =>
    cases h with
    | refl => simp [hstep] at hlast
    | step hother htail =>
      rw [hstep, Except.ok.injEq] at hother
      subst hother
      obtain ⟨rest, rfl, hrest⟩ := ih htail
      exact ⟨rest, by omega, hrest⟩

theorem Runs.eq_zero_of_halt (h : Runs policy n m last) (hm : m.step policy = .error halt) :
    n = 0 ∧ last = m := by
  cases h with
  | refl => exact ⟨rfl, rfl⟩
  | step hstep _ => simp [hstep] at hm

/-- A run without a limit halts at one moment only. -/
theorem Runs.unique_halt {last' : Moment input} {halt' : Halt input} (h : Runs policy n m last)
    (hlast : last.step policy = .error halt) (h' : Runs policy k m last')
    (hlast' : last'.step policy = .error halt') : n = k ∧ last = last' := by
  obtain ⟨rest, rfl, hrest⟩ := h.of_halts hlast h'
  obtain ⟨rfl, heq⟩ := hrest.eq_zero_of_halt hlast'
  exact ⟨Nat.add_zero k, heq⟩

/-- A run without a limit processes so many items in all. -/
def HaltsAfter (policy : ZeroWidth) (m : Moment input) (n : Nat) : Prop :=
  ∃ taken last halt, Runs policy taken m last ∧ last.step policy = .error halt ∧
    n = taken + halt.cost

/-- The number of items that a run without a limit processes. -/
noncomputable def itemCount (policy : ZeroWidth) (m : Moment input) : ℕ∞ :=
  ⨅ (n : Nat) (_ : m.HaltsAfter policy n), (n : ℕ∞)

theorem HaltsAfter.unique (h : m.HaltsAfter policy n) (h' : m.HaltsAfter policy k) : n = k := by
  obtain ⟨taken, last, halt, hruns, hlast, rfl⟩ := h
  obtain ⟨taken', last', halt', hruns', hlast', rfl⟩ := h'
  obtain ⟨rfl, rfl⟩ := hruns.unique_halt hlast hruns' hlast'
  rw [hlast, Except.error.injEq] at hlast'
  rw [hlast']

theorem HaltsAfter.itemCount_eq (h : m.HaltsAfter policy n) : m.itemCount policy = n := by
  apply le_antisymm
  · exact iInf₂_le n h
  · apply le_iInf₂
    intro k hk
    rw [h.unique hk]

theorem exists_haltsAfter {limit : Nat} (h : m.itemCount policy ≤ limit) :
    ∃ n, m.HaltsAfter policy n := by
  by_contra hnone
  have htop : m.itemCount policy = ⊤ := by
    simp [itemCount, not_exists.mp hnone]
  simp [htop] at h

/-- A run goes on for fewer items than it processes in all. -/
theorem exists_runs_of_lt (h : ∀ n, m.HaltsAfter policy n → k < n) :
    ∃ next, Runs policy k m next ∧ ∀ result, next.work ≠ .finished result := by
  induction k generalizing m with
  | zero =>
    refine ⟨m, .refl m, fun result hw => ?_⟩
    exact Nat.lt_irrefl 0 (h 0 ⟨0, m, _, .refl m, step_finished hw, rfl⟩)
  | succ k ih =>
    cases hstep : m.step policy with
    | error halt =>
      have hlt := h _ ⟨0, m, halt, .refl m, hstep, rfl⟩
      cases halt <;> simp [Halt.cost] at hlt
    | ok middle =>
      have hmiddle : ∀ n, middle.HaltsAfter policy n → k < n := by
        rintro n ⟨taken, last, halt, hruns, hlast, rfl⟩
        have := h _ ⟨taken + 1, last, halt, .step hstep hruns, hlast, rfl⟩
        omega
      obtain ⟨next, hruns, hnext⟩ := ih hmiddle
      exact ⟨next, .step hstep hruns, hnext⟩

/-- The store that a run leaves is the one at a moment that it comes to. -/
theorem exists_runs_store (config : Config) (patience steps : Nat) (m : Moment input) :
    ∃ n last, Runs config.zeroWidth n m last ∧
      (m.run config patience steps).store = last.store := by
  obtain ⟨n, last, hruns, ⟨halt, hhalt, hrun⟩ | ⟨error, -, hrun⟩⟩ :=
    m.exists_ending config patience steps
  · refine ⟨n, last, hruns, ?_⟩
    rw [hrun]
    rcases halt_cases hhalt with ⟨result, -, rfl⟩ | ⟨result, id, -, -, rfl⟩ <;> rfl
  · exact ⟨n, last, hruns, congrArg Ending.store hrun⟩

/-! ## Driving a run to its halt -/

variable {config : Config} {patience steps : Nat}

theorem run_of_runs (h : Runs config.zeroWidth n m next) (allows : config.Allows (steps + n))
    (hpatience : n ≤ patience) :
    ∃ rest, m.run config patience steps = next.run config rest (steps + n) := by
  induction h generalizing patience steps with
  | refl m => exact ⟨patience, rfl⟩
  | @step n m middle last hstep _ ih =>
    have hspent : config.spent? steps = none :=
      Config.spent?_of_allows (allows.mono (by omega))
    have count : steps + (n + 1) = steps + 1 + n := by omega
    have cost := Bool.toNat_le (m.repeats config.zeroWidth)
    rw [count] at allows ⊢
    rw [run_of_turn hspent (fun _ => by omega) hstep]
    exact ih allows (by omega)

theorem run_at_halt (hstep : m.step config.zeroWidth = .error halt)
    (allows : config.Allows (steps + halt.cost)) :
    m.run config patience steps = halt.ending steps := by
  rcases halt_cases hstep with ⟨result, hw, rfl⟩ | ⟨result, id, hw, -, rfl⟩
  · exact run_of_finished hw
  · exact run_of_halt (Config.spent?_of_allows allows) hstep

theorem run_of_halts (h : Runs config.zeroWidth n m last)
    (hlast : last.step config.zeroWidth = .error halt)
    (allows : config.Allows (steps + (n + halt.cost))) (hpatience : n ≤ patience) :
    m.run config patience steps = halt.ending (steps + n) := by
  rw [← Nat.add_assoc] at allows
  obtain ⟨rest, hrun⟩ := run_of_runs h (allows.mono (Nat.le_add_right _ _)) hpatience
  rw [hrun, run_at_halt hlast allows]

/-- A resumption that repeats a round takes a continuation out. -/
theorem live_of_resume {result : Option Nat} {id : ContId} (hw : m.work = .resume result id)
    (hstep : m.step policy = .ok next) :
    next.store.live + (m.repeats policy).toNat ≤ m.store.live := by
  obtain ⟨c, htake, -⟩ := take_of_step_resume hw hstep
  by_cases hid : id = .done
  · have hrepeats : m.repeats policy = false := by simp [repeats, stays, hw, hid, Store.waiting?]
    rw [hid, Store.take_done, Option.some.injEq, Prod.mk.injEq] at htake
    simp [hrepeats, ← htake.2]
  · have fewer := (Store.rest_of_take m.reachable.wellFormed hid htake).1
    have := Bool.toNat_le (m.repeats policy)
    omega

/-- Without a limit as much patience as continuations wait brings a run to its halt, if it has one: each
round that is repeated takes out a continuation that waited at the start, since a round of a star that
was evaluated since then would be repeated for ever. The induction is on the length of the run. -/
theorem run_unlimited_of_halts (h : Runs policy n m last) (hlast : last.step policy = .error halt)
    (hpatience : m.store.live ≤ patience) :
    m.run ⟨policy, none⟩ patience steps = halt.ending (steps + n) := by
  induction n using Nat.strongRecOn generalizing m patience steps with
  | _ n ih =>
    have hspent : ∀ steps, (⟨policy, none⟩ : Config).spent? steps = none := fun _ => rfl
    cases hw : m.work with
    | finished result =>
      obtain ⟨rfl, rfl⟩ := h.eq_zero_of_halt (step_finished hw)
      exact run_of_halt (hspent steps) hlast
    | resume result id =>
      cases h with
      | refl => exact run_of_halt (hspent steps) hlast
      | @step n _ next _ hstep htail =>
        have fewer := live_of_resume hw hstep
        have patient : m.repeats policy = true → patience ≠ 0 := by
          intro hrepeats
          rw [hrepeats, Bool.toNat_true] at fewer
          omega
        have patience' : next.store.live ≤ patience - (m.repeats policy).toNat := by omega
        have count : steps + (n + 1) = steps + 1 + n := by omega
        rw [count]
        exact (run_of_turn (hspent steps) patient hstep).trans
          (ih n (Nat.lt_succ_self n) htail patience')
    | eval e start cont =>
      have moves : policy = .faithful → Expr.Advances input e start := by
        rintro rfl
        by_contra hnot
        obtain ⟨k, circle, hruns, hcircle⟩ := exists_circle hw hnot
        obtain ⟨next, hstep⟩ := ((hruns.runs.endless hcircle.endless).of_runs h).exists_step
        simp [hstep] at hlast
      obtain ⟨next, hadvances, handed⟩ := advances_eval policy moves hw
      obtain ⟨rest, rfl, hrest⟩ := h.of_halts hlast hadvances.runs
      have hlive := handed.agrees.live
      have hpos : stepCount input e start ≠ 0 := by
        intro hzero
        rw [hzero] at hadvances
        cases hadvances
        exact absurd (hw.symm.trans handed.work) (by simp)
      rw [run_of_advances hadvances (Config.allows_of_none rfl _), ih rest (by omega) hrest (by omega),
        Nat.add_assoc]

end Moment

theorem Halt.steps_ending {input : String} (halt : Halt input) (steps : Nat) :
    (halt.ending steps).steps = steps + halt.cost := by
  cases halt <;> rfl

/-- The outcome of a drive and the machine that it leaves, if the run of the drive ends so. -/
def Ending.onto (ending : Ending) (machine : Machine) : Except MatchError (Option Nat) × Machine :=
  (ending.outcome,
    { machine with store := ending.store, reachable := ending.reachable, steps := ending.steps })

namespace Machine

/-- The machine with the same policy and without a limit. -/
def unlimited (machine : Machine) : Machine :=
  { machine with config := { machine.config with maxSteps := none } }

/-- What a caller can make of a machine by storing and driving. -/
inductive Leads (machine : Machine) : Machine → Prop
  | refl : Leads machine machine
  | push {later : Machine} (c : Continuation) :
      Leads machine later → Leads machine (later.push c).2
  | drive {later : Machine} (work : WorkItem) :
      Leads machine later → Leads machine (later.drive work).2

section Drive

variable {machine : Machine} {work : WorkItem} {limit : Nat}

theorem drive_eq_onto {ending : Ending}
    (h : (machine.moment work).run machine.config
      (machine.config.patience machine.store machine.steps) machine.steps = ending) :
    machine.drive work = ending.onto machine := by
  subst h
  rfl

theorem drive_finished (machine : Machine) (result : Option Nat) :
    machine.drive (.finished result) = (.ok result, machine) :=
  drive_eq_onto (Moment.run_of_finished rfl)

theorem drive_eval_of_spent (hspent : machine.config.spent? machine.steps = some limit) {e : Expr}
    {start : Nat} {cont : ContId} :
    machine.drive (.eval e start cont) = (.error (.stepLimitExceeded limit), machine) :=
  drive_eq_onto (Moment.run_of_spent (by rintro _ ⟨⟩) hspent)

theorem drive_resume_of_spent (hspent : machine.config.spent? machine.steps = some limit)
    {result : Option Nat} {cont : ContId} :
    machine.drive (.resume result cont) = (.error (.stepLimitExceeded limit), machine) :=
  drive_eq_onto (Moment.run_of_spent (by rintro _ ⟨⟩) hspent)

/-- If the limit allows all items, it changes nothing. -/
theorem exists_ending_of_le (hmax : machine.config.maxSteps = some limit)
    (h : machine.steps + (machine.moment work).itemCount machine.config.zeroWidth ≤ limit) :
    ∃ ending : Ending, machine.drive work = ending.onto machine ∧
      machine.unlimited.drive work = ending.onto machine.unlimited ∧
      ending.steps = machine.steps + (machine.moment work).itemCount machine.config.zeroWidth := by
  obtain ⟨n, hn⟩ := Moment.exists_haltsAfter (le_add_self.trans h)
  rw [hn.itemCount_eq] at h ⊢
  obtain ⟨taken, last, halt, hruns, hlast, rfl⟩ := hn
  have hle : machine.steps + (taken + halt.cost) ≤ limit := by exact_mod_cast h
  have allows := (Config.allows_iff hmax).mpr hle
  have patient : taken ≤ machine.config.patience machine.store machine.steps := by
    simp only [Config.patience, hmax]
    omega
  refine ⟨halt.ending (machine.steps + taken), ?_, ?_, ?_⟩
  · exact drive_eq_onto (Moment.run_of_halts hruns hlast allows patient)
  · exact drive_eq_onto (Moment.run_unlimited_of_halts hruns hlast (Nat.le_refl _))
  · rw [halt.steps_ending, Nat.add_assoc]
    norm_cast

/-- Otherwise a drive stops after as many items as the limit leaves. -/
theorem exists_cut_of_lt (hmax : machine.config.maxSteps = some limit)
    (hle : machine.steps ≤ limit)
    (h : limit < machine.steps + (machine.moment work).itemCount machine.config.zeroWidth) :
    ∃ last, Moment.Runs machine.config.zeroWidth (limit - machine.steps) (machine.moment work) last ∧
      machine.drive work =
        (last.ending limit (.error (.stepLimitExceeded limit))).onto machine := by
  have hlt : ∀ n, (machine.moment work).HaltsAfter machine.config.zeroWidth n →
      limit - machine.steps < n := by
    intro n hn
    rw [hn.itemCount_eq] at h
    have : limit < machine.steps + n := by exact_mod_cast h
    omega
  obtain ⟨last, hruns, hlast⟩ := Moment.exists_runs_of_lt hlt
  have count : machine.steps + (limit - machine.steps) = limit := by omega
  have allows := (Config.allows_iff hmax).mpr (Nat.le_of_eq count)
  have patient : limit - machine.steps ≤ machine.config.patience machine.store machine.steps := by
    simp only [Config.patience, hmax]
    exact Nat.le_refl _
  have hspent : machine.config.spent? limit = some limit := by simp [Config.spent?, hmax]
  obtain ⟨rest, hrun⟩ := Moment.run_of_runs hruns allows patient
  rw [count, Moment.run_of_spent hlast hspent] at hrun
  exact ⟨last, hruns, drive_eq_onto hrun⟩

end Drive

section Reached

variable {policy : ZeroWidth} {limit : Nat} {machine later : Machine}

/-- No machine that a caller can come by has taken more steps than its limit allows. -/
theorem Reached.steps_le (h : machine.Reached ⟨policy, some limit⟩) : machine.steps ≤ limit := by
  induction h with
  | new input => exact Nat.zero_le limit
  | push c _ ih => exact ih
  | @drive machine work h ih =>
    have hmax : machine.config.maxSteps = some limit := by rw [h.config_eq]
    rcases le_or_gt (machine.steps + (machine.moment work).itemCount machine.config.zeroWidth)
      (limit : ℕ∞) with hle | hlt
    · obtain ⟨ending, hdrive, -, hsteps⟩ := exists_ending_of_le hmax hle
      rw [hdrive]
      have hending : (ending.steps : ℕ∞) ≤ limit := hsteps.trans_le hle
      exact_mod_cast hending
    · obtain ⟨last, -, hdrive⟩ := exists_cut_of_lt hmax ih hlt
      rw [hdrive]
      exact Nat.le_refl limit

/-- A machine that has used up its limit stays so. -/
theorem Leads.spent (h : machine.Leads later)
    (hspent : machine.config.spent? machine.steps = some limit) :
    later.config.spent? later.steps = some limit := by
  induction h with
  | refl => exact hspent
  | push c _ ih => exact ih
  | @drive later work _ ih =>
    cases work with
    | finished result => rwa [drive_finished]
    | eval e start cont => rwa [drive_eval_of_spent ih]
    | resume result cont => rwa [drive_resume_of_spent ih]

end Reached

end Machine

theorem haltsAfter_of_advances {policy : ZeroWidth} {e : Expr} {input : String}
    (moves : policy = .faithful → Expr.Advances input e 0) :
    (e.firstMoment input).HaltsAfter policy (stepCount input e 0 + 1) := by
  obtain ⟨last, hruns, hlast, -⟩ := advances_to_answer policy moves
  exact ⟨_, last, _, hruns.runs, Moment.step_finished hlast, rfl⟩

theorem haltsAfter_firstMoment (e : Expr) (input : String) :
    (e.firstMoment input).HaltsAfter .guard (stepCount input e 0 + 1) :=
  haltsAfter_of_advances fun h => nomatch h

/-- A new machine under the guard gives the unlimited answer exactly if the limit allows all items. -/
theorem exists_threshold (e : Expr) (input : String) :
    ∃ n : Nat, (e.firstMoment input).itemCount .guard = n ∧ ∀ limit,
      (n ≤ limit → evaluate ⟨.guard, some limit⟩ e input = evaluate {} e input) ∧
      (limit < n → evaluate ⟨.guard, some limit⟩ e input = .error (.stepLimitExceeded limit)) := by
  refine ⟨stepCount input e 0 + 1, (haltsAfter_firstMoment e input).itemCount_eq,
    fun limit => ⟨fun hle => ?_, fun hlt => ?_⟩⟩
  · have allows : Config.Allows ⟨.guard, some limit⟩ (stepCount input e 0 + 1) :=
      (Config.allows_iff rfl).mpr hle
    rw [evaluate_of_allows (by rintro ⟨⟩) allows, evaluate_default]
  · have hcut : ¬ Config.Allows ⟨.guard, some limit⟩ (stepCount input e 0 + 1) :=
      mt (Config.allows_iff rfl).mp (Nat.not_le_of_lt hlt)
    obtain ⟨other, hother, hevaluate⟩ := evaluate_of_not_allows (by rintro ⟨⟩) hcut
    rw [hevaluate, ← Option.some.inj hother]

/-- A limit cuts a run and changes nothing else. The steps never exceed it. A drive whose items it allows
is the unlimited one; any other drive leaves what the unlimited run has after as many items as there were
steps left, and from then on a machine only finishes. -/
theorem limit_only_cuts :
    (∀ policy limit machine, Machine.Reached ⟨policy, some limit⟩ machine →
      machine.steps ≤ limit ∧
      (∀ work, machine.steps + (machine.moment work).itemCount policy ≤ limit →
        machine.unlimited.drive work = ((machine.drive work).1, (machine.drive work).2.unlimited) ∧
        (machine.drive work).2.steps = machine.steps + (machine.moment work).itemCount policy) ∧
      ∀ work, limit < machine.steps + (machine.moment work).itemCount policy →
        (∃ last, Moment.Runs policy (limit - machine.steps) (machine.moment work) last ∧
          (machine.drive work).2.store = last.store) ∧
        (machine.drive work).1 = .error (.stepLimitExceeded limit) ∧
        (machine.drive work).2.steps = limit ∧
        ∀ later, (machine.drive work).2.Leads later →
          (∀ e start cont,
            later.drive (.eval e start cont) = (.error (.stepLimitExceeded limit), later)) ∧
          (∀ result cont,
            later.drive (.resume result cont) = (.error (.stepLimitExceeded limit), later)) ∧
          ∀ result, later.drive (.finished result) = (.ok result, later)) ∧
    ∀ (e : Expr) (input : String), ∃ n : Nat, (e.firstMoment input).itemCount .guard = n ∧ ∀ limit,
      (n ≤ limit → evaluate ⟨.guard, some limit⟩ e input = evaluate {} e input) ∧
      (limit < n →
        evaluate ⟨.guard, some limit⟩ e input = .error (.stepLimitExceeded limit)) := by
  refine ⟨?_, exists_threshold⟩
  intro policy limit machine h
  obtain ⟨input, config, store, reachable, steps⟩ := machine
  obtain rfl : config = ⟨policy, some limit⟩ := h.config_eq
  refine ⟨h.steps_le, fun work hle => ?_, fun work hlt => ?_⟩
  · obtain ⟨ending, hdrive, hunlimited, hsteps⟩ := Machine.exists_ending_of_le rfl hle
    rw [hdrive, hunlimited]
    exact ⟨rfl, hsteps⟩
  · obtain ⟨last, hruns, hdrive⟩ := Machine.exists_cut_of_lt rfl h.steps_le hlt
    rw [hdrive]
    refine ⟨⟨last, hruns, rfl⟩, rfl, rfl, fun later hlater => ?_⟩
    have hspent : later.config.spent? later.steps = some limit :=
      hlater.spent (if_pos (Nat.le_refl limit))
    exact ⟨fun e start cont => Machine.drive_eval_of_spent hspent,
      fun result cont => Machine.drive_resume_of_spent hspent, Machine.drive_finished later⟩

/-- A machine with fewer steps than the evaluation of a literal takes. -/
private def hurried : Machine := .new "ab" ⟨.guard, some 1⟩

theorem hurried_is_cut :
    hurried.Reached ⟨.guard, some 1⟩ ∧
      (hurried.drive (.eval (.literal "a") 0 .done)).1 = .error (.stepLimitExceeded 1) ∧
      (hurried.drive (.eval (.literal "a") 0 .done)).2.steps = 1 := by
  have reached : hurried.Reached ⟨.guard, some 1⟩ := .new "ab"
  have count : (hurried.moment (.eval (.literal "a") 0 .done)).itemCount .guard = (2 : Nat) :=
    (haltsAfter_firstMoment (.literal "a") "ab").itemCount_eq
  have hlt : (1 : Nat) < (hurried.steps : ℕ∞) +
      (hurried.moment (.eval (.literal "a") 0 .done)).itemCount .guard := by
    rw [count]
    exact_mod_cast (by decide : 1 < hurried.steps + 2)
  obtain ⟨-, -, hcut⟩ := limit_only_cuts.1 .guard 1 hurried reached
  obtain ⟨-, houtcome, hsteps, -⟩ := hcut _ hlt
  exact ⟨reached, houtcome, hsteps⟩

/-! ## Which matches end -/

/-- A match under the settings processes only finitely many items: it comes to the committed end, or to
its limit. -/
def Config.Ends (config : Config) (e : Expr) (input : String) : Prop :=
  ∃ n last, Moment.Runs config.zeroWidth n (e.firstMoment input) last ∧
    (last.work = .finished (committedEnd input e 0) ∧ config.Allows n ∧
        config.findEnd e input = .ok (committedEnd input e 0) ∨
      config.maxSteps = some n ∧ config.findEnd e input = .error (.stepLimitExceeded n))

section Ends

variable {config : Config} {e : Expr} {input : String}

theorem findEnd_eq_error_iff {error : MatchError} :
    config.findEnd e input = .error error ↔ evaluate config e input = .error error := by
  unfold Config.findEnd
  cases evaluate config e input <;> simp [Except.map]

/-- Rounds that all move come to an end, which a limit may come before. -/
theorem ends_of_advances (moves : config.zeroWidth = .faithful → Expr.Advances input e 0) :
    config.Ends e input := by
  by_cases allows : config.Allows (stepCount input e 0 + 1)
  · obtain ⟨last, hadvances, hlast, -⟩ := advances_to_answer config.zeroWidth moves
    refine ⟨_, last, hadvances.runs, Or.inl ⟨hlast, allows, ?_⟩⟩
    rw [Config.findEnd, evaluate_of_allows moves allows]
    rfl
  · obtain ⟨limit, hmax, hcut⟩ := evaluate_of_not_allows moves allows
    have hlt : limit < stepCount input e 0 + 1 := by
      rw [Config.allows_iff hmax] at allows
      omega
    obtain ⟨next, hruns, -⟩ :=
      Moment.exists_runs_of_lt fun n hn => hn.unique (haltsAfter_of_advances moves) ▸ hlt
    exact ⟨limit, next, hruns, Or.inr ⟨hmax, findEnd_eq_error_iff.mpr hcut⟩⟩

/-- Only the faithful policy without a limit can go on for ever. -/
theorem ends_of_guard_or_limit (h : config.zeroWidth = .guard ∨ config.maxSteps ≠ none) :
    config.Ends e input := by
  by_cases moves : config.zeroWidth = .faithful → Expr.Advances input e 0
  · exact ends_of_advances moves
  · obtain ⟨hpolicy, hstay⟩ := Classical.not_imp.mp moves
    obtain ⟨policy, maxSteps⟩ := config
    obtain rfl : policy = .faithful := hpolicy
    obtain ⟨limit, hlimit⟩ := Option.ne_none_iff_exists'.mp (h.resolve_left (by simp))
    obtain rfl : maxSteps = some limit := hlimit
    obtain ⟨last, hruns⟩ := endless_of_not_advances hstay limit
    exact ⟨limit, last, hruns,
      Or.inr ⟨rfl, findEnd_eq_error_iff.mpr (evaluate_limited_of_not_advances hstay limit)⟩⟩

end Ends

end CommittedRegex
