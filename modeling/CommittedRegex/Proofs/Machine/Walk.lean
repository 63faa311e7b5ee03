import CommittedRegex.Proofs.Machine.Evaluation
import CommittedRegex.Proofs.Store.Pending

/-! # A guarded drive is a walk over what waits

A caller may link continuations in any way, also in a circle or to ids of which the store knows
nothing. A drive under the guard comes to an end all the same. Its outcome and what waits afterwards
depend on the map of what waits alone: the drive walks along the links of this map, and each
continuation that it meets leaves the map, so it meets none of them twice. -/
namespace CommittedRegex
open CommittedRegex.Expr

/-- The end that a continuation makes of the end it is resumed with, and the id of the continuation to
be resumed with it, unless it is the end of the whole. -/
def Continuation.pass (input : String) (result : Option Nat) :
    Continuation → Option Nat × Option ContId
  | done => (result, none)
  | afterConcat right next => (result.bind (committedEnd input right), some next)
  | afterAlternate second start next => (result.or (committedEnd input second start), some next)
  | afterRepeat node lastGood next =>
    match result with
    | none => (some lastGood, some next)
    | some stop =>
      if stop = lastGood then (some lastGood, some next)
      else (committedEnd input node stop, some next)

/-- Resumes with an end what waits under an id, and so on along the links. -/
def walk (input : String) (pending : Pending) (result : Option Nat) (id : ContId) :
    Except MatchError (Option Nat) × Pending :=
  if id = .done then (.ok result, pending)
  else
    match _hlookup : pending.lookup id with
    | none => (.error (.unknownContinuation id.index), pending)
    | some c =>
      match c.pass input result with
      | (result, none) => (.ok result, pending.erase id)
      | (result, some next) => walk input (pending.erase id) result next
termination_by pending.keys.card
decreasing_by
  have hmem : id ∈ pending.keys := Finmap.mem_keys.mpr (Finmap.mem_of_lookup_eq_some _hlookup)
  rw [Finmap.keys_erase]
  exact Finset.card_erase_lt_of_mem hmem

def WorkItem.walk (input : String) (pending : Pending) :
    WorkItem → Except MatchError (Option Nat) × Pending
  | eval e start cont => CommittedRegex.walk input pending (committedEnd input e start) cont
  | resume result cont => CommittedRegex.walk input pending result cont
  | finished result => (.ok result, pending)

section Walk

variable {input : String} {pending : Pending} {result result' : Option Nat} {id next : ContId}
variable {c : Continuation}

theorem walk_done : walk input pending result .done = (.ok result, pending) := by
  rw [walk, if_pos rfl]

theorem walk_of_none (hid : id ≠ .done) (h : pending.lookup id = none) :
    walk input pending result id = (.error (.unknownContinuation id.index), pending) := by
  rw [walk, if_neg hid]
  split
  · rfl
  · rename_i hsome
    simp [h] at hsome

theorem walk_of_some (hid : id ≠ .done) (h : pending.lookup id = some c) :
    walk input pending result id =
      match c.pass input result with
      | (result, none) => (.ok result, pending.erase id)
      | (result, some next) => walk input (pending.erase id) result next := by
  rw [walk, if_neg hid]
  split
  · rename_i hnone
    simp [h] at hnone
  · rename_i c' hsome
    obtain rfl := Option.some.inj (h.symm.trans hsome)
    rfl

/-- A walk only ever takes continuations out. -/
theorem lookup_of_walk (input : String) (pending : Pending) (result : Option Nat) (id : ContId)
    {other : ContId} (h : (walk input pending result id).2.lookup other = some c) :
    pending.lookup other = some c := by
  have erased : ∀ (pending : Pending) (id : ContId), (pending.erase id).lookup other = some c →
      pending.lookup other = some c := by
    intro pending id herase
    by_cases heq : other = id
    · rw [heq, Finmap.lookup_erase] at herase
      cases herase
    · rwa [Finmap.lookup_erase_ne heq] at herase
  fun_induction walk input pending result id with
  | case1 pending result => exact h
  | case2 pending result id hid hnone => exact h
  | case3 pending result id hid c' hsome result' hpass => exact erased _ _ h
  | case4 pending result id hid c' hsome result' next hpass ih => exact erased _ _ (ih h)

/-- The work that a continuation leads to goes on with what the continuation passes on. -/
theorem walk_resume (c : Continuation) (input : String) (pending : Pending)
    (result : Option Nat) :
    (c.resume .guard result).walk input pending =
      match c.pass input result with
      | (result, none) => (.ok result, pending)
      | (result, some next) => walk input pending result next := by
  cases c with
  | done => rfl
  | afterConcat right next => cases result <;> rfl
  | afterAlternate second start next => cases result <;> rfl
  | afterRepeat node lastGood next =>
    cases result with
    | none => rfl
    | some stop =>
      by_cases heq : stop = lastGood
      · simp [Continuation.resume, Continuation.pass, WorkItem.walk, heq]
      · simp [Continuation.resume, Continuation.pass, WorkItem.walk, heq]

end Walk

namespace Moment

variable {input : String}

/-- An expression at hand is evaluated, with what waits unchanged and with no change to the walk. -/
private theorem exists_settled (m : Moment input) :
    ∃ n last, Advances .guard n m last ∧ Store.Agrees last.store m.store ∧
      (∀ pending, last.work.walk input pending = m.work.walk input pending) ∧
      ∀ e start cont, last.work ≠ .eval e start cont := by
  cases hw : m.work with
  | finished result => exact ⟨0, m, .refl m, .refl _, by simp [hw], by simp [hw]⟩
  | resume result cont => exact ⟨0, m, .refl m, .refl _, by simp [hw], by simp [hw]⟩
  | eval e start cont =>
    obtain ⟨last, run, handed⟩ := advances_eval .guard (fun h => nomatch h) hw
    refine ⟨_, last, run, handed.agrees, ?_, by simp [handed.work]⟩
    intro pending
    rw [handed.work]
    rfl

/-- The induction is on the number of continuations that wait: every resumption takes one out, and an
evaluation in between leaves as many as before. -/
theorem run_eq_walk (m : Moment input) (patience steps : Nat) :
    ((m.run {} patience steps).outcome, (m.run {} patience steps).store.pending) =
      m.work.walk input m.store.pending := by
  induction hlive : m.store.live using Nat.strongRecOn generalizing m steps with
  | _ live ih =>
    obtain ⟨n, last, run, agrees, hwalk, hne⟩ := m.exists_settled
    have hlive' := agrees.live
    have hspent : ∀ steps, ({} : Config).spent? steps = none := fun _ => rfl
    rw [run_of_advances run (Config.allows_of_none rfl _), ← hwalk, ← agrees.pending_eq]
    generalize steps + n = steps
    cases hw : last.work with
    | eval e start cont => exact absurd hw (hne e start cont)
    | finished result =>
      rw [run_of_finished hw]
      rfl
    | resume result id =>
      by_cases hid : id = .done
      · subst hid
        obtain ⟨final, hfinal, hdone, hstore⟩ := advances_done .guard hw
        rw [run_of_advances hfinal (Config.allows_of_none rfl _), run_of_finished hdone]
        simp [ending, WorkItem.walk, walk_done, hstore]
      · cases hwaiting : last.store.waiting? id with
        | none =>
          have hfind : last.store.find? id = none := by simp [Store.find?, hid, hwaiting]
          rw [run_of_halt (hspent steps) (step_resume_of_none hw hfind)]
          simp [Halt.ending, ending, WorkItem.walk, walk_of_none hid, hwaiting]
        | some c =>
          have hfind : last.store.find? id = some c := by simp [Store.find?, hid, hwaiting]
          have htake := Store.take_of_find? hfind
          obtain ⟨_, hstep⟩ := step_resume .guard hw hfind
          obtain ⟨rest, htake', fewer, -⟩ :=
            Store.take_of_waiting last.reachable.wellFormed hwaiting
          obtain rfl := Store.eq_remove_of_take htake'
          have hless : (last.store.remove id).live < live := by omega
          rw [run_of_step (hspent steps) rfl hstep, ih _ hless _ (steps + 1) rfl]
          rw [Store.pending_of_take last.reachable.wellFormed hid htake, walk_resume]
          simp only [WorkItem.walk]
          rw [walk_of_some hid ((Store.lookup_pending _ _).trans hwaiting)]

end Moment

/-- A drive under the guard halts with the end of the whole or at an id under which nothing waits. Its
outcome and what waits afterwards are those of the walk over what waited before, whatever the layout of
the store, so nothing waits that did not wait before, and the counter tells how much it is. -/
theorem drive_eq_walk {machine : Machine} (h : machine.Reached {}) (work : WorkItem) :
    (∃ n last halt, Moment.Runs .guard n (machine.moment work) last ∧
        last.step .guard = .error halt ∧
        (machine.drive work).1 = (halt.ending (machine.steps + n)).outcome ∧
        (machine.drive work).2.store = (halt.ending (machine.steps + n)).store) ∧
      ((∃ result, (machine.drive work).1 = .ok result) ∨
        ∃ id : ContId, (machine.drive work).1 = .error (.unknownContinuation id.index)) ∧
      ((machine.drive work).1, (machine.drive work).2.store.pending) =
        work.walk machine.input machine.store.pending ∧
      (∀ id c, (machine.drive work).2.store.pending.lookup id = some c →
        machine.store.pending.lookup id = some c) ∧
      (machine.drive work).2.stats.pending = (machine.drive work).2.store.pending.keys.card := by
  obtain ⟨input, config, store, reachable, steps⟩ := machine
  obtain rfl : config = {} := h.config_eq
  let machine : Machine := ⟨input, {}, store, reachable, steps⟩
  let patience := ({} : Config).patience store steps
  have walked := (machine.moment work).run_eq_walk patience steps
  obtain ⟨n, last, halt, hruns, hhalt, hrun⟩ := (machine.moment work).exists_halt patience steps
  refine ⟨⟨n, last, halt, hruns, hhalt, ?_, ?_⟩, ?_, walked, ?_, ?_⟩
  · exact congrArg Ending.outcome hrun
  · exact congrArg Ending.store hrun
  · have houtcome : (machine.drive work).1 = _ := congrArg Ending.outcome hrun
    cases halt with
    | finished m result => exact Or.inl ⟨result, houtcome⟩
    | unknown m id => exact Or.inr ⟨id, houtcome⟩
  · intro id c hlookup
    have hpending : (machine.drive work).2.store.pending = (work.walk input store.pending).2 :=
      congrArg Prod.snd walked
    rw [hpending] at hlookup
    cases work with
    | eval e start cont => exact lookup_of_walk input _ _ cont hlookup
    | resume result cont => exact lookup_of_walk input _ _ cont hlookup
    | finished result => exact hlookup
  · rw [Store.keys_pending, (machine.drive work).2.reachable.wellFormed.card_waitingIds]
    rfl

/-- A machine on which the one continuation that waits names itself as the next one. -/
private def selfLinked : Machine :=
  ((Machine.new "ab" {}).push (.afterConcat (.literal "b") ⟨1⟩)).2

/-- A continuation that names itself is met once, and then nothing waits under its id. -/
theorem drive_selfLinked :
    selfLinked.Reached {} ∧
      (selfLinked.drive (.resume none ⟨1⟩)).1 = .error (.unknownContinuation 1) ∧
      (selfLinked.drive (.resume none ⟨1⟩)).2.store.pending = selfLinked.store.pending.erase ⟨1⟩ := by
  have reached : selfLinked.Reached {} := .push _ (.new "ab")
  obtain ⟨-, -, walked, -⟩ := drive_eq_walk reached (.resume none ⟨1⟩)
  have hid : (⟨1⟩ : ContId) ≠ .done := by decide
  have hlookup : selfLinked.store.pending.lookup ⟨1⟩ = some (.afterConcat (.literal "b") ⟨1⟩) := by
    rw [Store.lookup_pending]
    rfl
  rw [WorkItem.walk, walk_of_some hid hlookup] at walked
  simp only [Continuation.pass, Option.bind_none] at walked
  rw [walk_of_none hid (Finmap.lookup_erase _ _)] at walked
  exact ⟨reached, congrArg Prod.fst walked, congrArg Prod.snd walked⟩

end CommittedRegex
