import CommittedRegex.Machine.Drive

/-! # Runs and their endings

What driving makes of a number of steps: if the limit allows them all, the run goes on from the moment
they lead to, and otherwise it ends with the limit. Machines that a caller can come by keep their
configuration. -/
namespace CommittedRegex

/-- The limit, if there is one, allows the number of steps. -/
def Config.Allows (config : Config) (steps : Nat) : Prop :=
  ∀ limit, config.maxSteps = some limit → steps ≤ limit

theorem Config.allows_of_none {config : Config} (h : config.maxSteps = none) (steps : Nat) :
    config.Allows steps := by
  intro limit hlimit
  simp [h] at hlimit

theorem Config.allows_iff {config : Config} {limit steps : Nat} (h : config.maxSteps = some limit) :
    config.Allows steps ↔ steps ≤ limit := by
  simp [Allows, h]

theorem Config.Allows.mono {config : Config} {steps more : Nat} (h : config.Allows more)
    (hle : steps ≤ more) : config.Allows steps :=
  fun limit hlimit => Nat.le_trans hle (h limit hlimit)

theorem Config.spent?_of_allows {config : Config} {steps : Nat} (h : config.Allows (steps + 1)) :
    config.spent? steps = none := by
  unfold spent?
  cases hmax : config.maxSteps with
  | none => rfl
  | some limit =>
    have := h limit hmax
    exact if_neg (by omega)

theorem Config.spent?_of_not_allows {config : Config} {steps : Nat}
    (h : ¬ config.Allows (steps + 1)) :
    ∃ limit, config.maxSteps = some limit ∧ config.spent? steps = some limit := by
  cases hmax : config.maxSteps with
  | none => exact absurd (allows_of_none hmax _) h
  | some limit =>
    have hlt := mt (allows_iff hmax).mpr h
    refine ⟨limit, rfl, ?_⟩
    simp only [spent?, hmax]
    exact if_pos (by omega)

def Halt.ending {input : String} (steps : Nat) : Halt input → Ending
  | finished m result => m.ending steps (.ok result)
  | unknown m id => m.ending (steps + 1) (.error (.unknownContinuation id.index))

namespace Moment

variable {input : String} {config : Config} {patience steps : Nat} {m next : Moment input}

theorem run_of_finished {result : Option Nat} (h : m.work = .finished result) :
    m.run config patience steps = m.ending steps (.ok result) := by
  rw [run]
  simp [h]

theorem work_ne_finished {policy : ZeroWidth} (hstep : m.step policy = .ok next)
    (result : Option Nat) : m.work ≠ .finished result := by
  intro h
  simp [step_finished h] at hstep

theorem run_of_spent {limit : Nat} (hw : ∀ result, m.work ≠ .finished result)
    (h : config.spent? steps = some limit) :
    m.run config patience steps = m.ending steps (.error (.stepLimitExceeded limit)) := by
  rw [run]
  split
  · rename_i result hfinished
    exact absurd hfinished (hw result)
  · simp [h]

/-- A run without patience for the round at hand ends there. -/
theorem run_of_impatient (hspent : config.spent? steps = none)
    (hrepeats : m.repeats config.zeroWidth = true) :
    m.run config 0 steps = m.ending steps (.error .endless) := by
  rw [run]
  split
  · rename_i result hfinished
    simp [repeats, stays, hfinished] at hrepeats
  · simp [hspent, hrepeats]

/-- A step that repeats a round which did not move takes patience, any other one takes none. -/
theorem run_of_turn (hspent : config.spent? steps = none)
    (hpatience : m.repeats config.zeroWidth = true → patience ≠ 0)
    (hstep : m.step config.zeroWidth = .ok next) :
    m.run config patience steps =
      next.run config (patience - (m.repeats config.zeroWidth).toNat) (steps + 1) := by
  have patient : ¬ (m.repeats config.zeroWidth && patience == 0) = true := by
    simpa using hpatience
  rw [run]
  split
  · rename_i result hfinished
    exact absurd hfinished (work_ne_finished hstep result)
  · simp only [hspent]
    rw [dif_neg patient]
    split
    · rename_i herror
      simp [hstep] at herror
    · rename_i herror
      simp [hstep] at herror
    · rename_i other hother
      obtain rfl := Except.ok.inj (hstep.symm.trans hother)
      rfl

theorem run_of_step (hspent : config.spent? steps = none)
    (hrepeats : m.repeats config.zeroWidth = false) (hstep : m.step config.zeroWidth = .ok next) :
    m.run config patience steps = next.run config patience (steps + 1) := by
  have hrun := @run_of_turn input config patience steps m next hspent (by simp [hrepeats]) hstep
  rwa [hrepeats] at hrun

theorem run_of_halt {halt : Halt input} (hspent : config.spent? steps = none)
    (hstep : m.step config.zeroWidth = .error halt) :
    m.run config patience steps = halt.ending steps := by
  cases hw : m.work with
  | finished result =>
    obtain rfl := Except.error.inj ((step_finished hw).symm.trans hstep)
    exact run_of_finished hw
  | eval e start cont => simp [step_eval hw] at hstep
  | resume result id =>
    cases hfind : m.store.find? id with
    | some c =>
      obtain ⟨_, hnext⟩ := step_resume config.zeroWidth hw hfind
      simp [hnext] at hstep
    | none =>
      obtain rfl := Except.error.inj ((step_resume_of_none hw hfind).symm.trans hstep)
      have hrepeats : m.repeats config.zeroWidth = false := by
        simp [repeats, stays, hw, Store.waiting?_eq_none_of_find? hfind]
      rw [run]
      split
      · rename_i other hfinished
        simp [hw] at hfinished
      · simp only [hspent, hrepeats, Bool.false_and, Bool.false_eq_true, reduceDIte]
        split
        · rename_i herror
          simp [hstep] at herror
        · rename_i herror
          cases hstep.symm.trans herror
          rfl
        · rename_i herror
          simp [hstep] at herror

theorem run_of_advances {n : Nat} (h : Advances config.zeroWidth n m next)
    (allows : config.Allows (steps + n)) :
    m.run config patience steps = next.run config patience (steps + n) := by
  induction h generalizing steps with
  | refl m => rfl
  | @step n m middle last hrepeats hstep _ ih =>
    have hspent : config.spent? steps = none :=
      Config.spent?_of_allows (allows.mono (by omega))
    have count : steps + (n + 1) = steps + 1 + n := by omega
    rw [count] at allows ⊢
    rw [run_of_step hspent hrepeats hstep]
    exact ih allows

/-- A run that would take more steps than the limit allows ends with the limit. -/
theorem run_cut {n : Nat} (h : Advances config.zeroWidth n m next)
    (hallows : config.Allows steps) (hcut : ¬ config.Allows (steps + n)) :
    ∃ limit, config.maxSteps = some limit ∧
      (m.run config patience steps).outcome = .error (.stepLimitExceeded limit) := by
  induction h generalizing steps with
  | refl m => exact absurd hallows hcut
  | @step n m middle last hrepeats hstep _ ih =>
    by_cases hone : config.Allows (steps + 1)
    · have count : steps + (n + 1) = steps + 1 + n := by omega
      rw [count] at hcut
      rw [run_of_step (Config.spent?_of_allows hone) hrepeats hstep]
      exact ih hone hcut
    · obtain ⟨limit, hmax, hspent⟩ := Config.spent?_of_not_allows hone
      refine ⟨limit, hmax, ?_⟩
      rw [run_of_spent (work_ne_finished hstep) hspent]
      rfl

/-- Without a limit a guarded run comes to a moment that has no next one, and ends there. -/
theorem exists_halt (m : Moment input) (patience steps : Nat) :
    ∃ n last halt, Runs .guard n m last ∧ last.step .guard = .error halt ∧
      m.run {} patience steps = halt.ending (steps + n) := by
  induction acc_follows m generalizing steps with
  | intro m _ ih =>
    cases hstep : m.step .guard with
    | error halt => exact ⟨0, m, halt, .refl m, hstep, run_of_halt rfl hstep⟩
    | ok next =>
      obtain ⟨n, last, halt, hruns, hlast, hrun⟩ := ih next hstep (steps + 1)
      have count : steps + 1 + n = steps + (n + 1) := by omega
      rw [count] at hrun
      refine ⟨n + 1, last, halt, .step hstep hruns, hlast, ?_⟩
      rw [run_of_step rfl rfl hstep, hrun]

/-- A run ends at a moment that it has come to: there is no next one, or the limit or the patience is
used up. -/
theorem exists_ending (config : Config) (patience steps : Nat) (m : Moment input) :
    ∃ n last, Runs config.zeroWidth n m last ∧
      ((∃ halt, last.step config.zeroWidth = .error halt ∧
        m.run config patience steps = halt.ending (steps + n)) ∨
      ∃ error, (error = .endless ∨ ∃ limit, error = .stepLimitExceeded limit) ∧
        m.run config patience steps = last.ending (steps + n) (.error error)) := by
  fun_induction Moment.run config patience steps m with
  | case1 patience steps m result hfinished =>
    exact ⟨0, m, .refl m, Or.inl ⟨_, step_finished hfinished, rfl⟩⟩
  | case2 patience steps m limit =>
    exact ⟨0, m, .refl m, Or.inr ⟨_, Or.inr ⟨limit, rfl⟩, rfl⟩⟩
  | case3 patience steps m => exact ⟨0, m, .refl m, Or.inr ⟨_, Or.inl rfl, rfl⟩⟩
  | case4 patience steps m _ _ _ last result herror =>
    exact ⟨0, m, .refl m, Or.inl ⟨_, herror, rfl⟩⟩
  | case5 patience steps m _ _ _ last id herror =>
    exact ⟨0, m, .refl m, Or.inl ⟨_, herror, rfl⟩⟩
  | case6 patience steps m _ _ _ next hstep _ ih =>
    obtain ⟨n, last, hruns, hending⟩ := ih
    have count : steps + 1 + n = steps + (n + 1) := by omega
    rw [count] at hending
    exact ⟨n + 1, last, .step hstep hruns, hending⟩

end Moment

namespace Machine

/-- A machine with the configuration that a caller can come by. -/
inductive Reached (config : Config) : Machine → Prop
  | new (input : String) : Reached config (.new input config)
  | push {machine : Machine} (c : Continuation) :
      Reached config machine → Reached config (machine.push c).2
  | drive {machine : Machine} (work : WorkItem) :
      Reached config machine → Reached config (machine.drive work).2

theorem Reached.config_eq {config : Config} {machine : Machine} (h : machine.Reached config) :
    machine.config = config := by
  induction h with
  | new input => rfl
  | push c _ ih => exact ih
  | drive work _ ih => exact ih

end Machine

end CommittedRegex
