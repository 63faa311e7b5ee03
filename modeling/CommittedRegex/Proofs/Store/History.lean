import CommittedRegex.Proofs.Store.Pending

/-! # What a store owes to its history

A caller stores and takes out in any order, also under ids that were never given or have been used up.
The log of what came of it tells what waits: a continuation waits under an id if it was the last one
stored under it and nothing has been taken out under it since. So a store is a finite map, which storing
extends at a new key and taking out erases a key of. -/
namespace CommittedRegex

/-- What a caller asks of a store. -/
inductive Request
  | push (c : Continuation)
  | take (id : ContId)

/-- What came of a request: the id that was given, or the continuation that was found. -/
inductive Event
  | pushed (id : ContId) (c : Continuation)
  | taken (id : ContId) (answer : Option Continuation)

/-- The continuation was the last one stored under the id, and none was taken out under it since. -/
def Outstanding (events : List Event) (id : ContId) (c : Continuation) : Prop :=
  ∃ before since, events = before ++ .pushed id c :: since ∧
    (∀ other, .pushed id other ∉ since) ∧ ∀ other, .taken id (some other) ∉ since

section Outstanding

variable {events : List Event} {event : Event} {id : ContId} {c : Continuation}

theorem not_outstanding_nil : ¬ Outstanding [] id c := by
  rintro ⟨before, since, h, -⟩
  simp at h

/-- An event stores under the id, or leaves what is outstanding under it, or takes it out. -/
theorem outstanding_concat : Outstanding (events ++ [event]) id c ↔ event = .pushed id c ∨
    (Outstanding events id c ∧ (∀ other, event ≠ .pushed id other) ∧
      ∀ other, event ≠ .taken id (some other)) := by
  constructor
  · rintro ⟨before, since, h, hpushed, htaken⟩
    rcases List.eq_nil_or_concat' since with rfl | ⟨since, last, rfl⟩
    · obtain ⟨-, rfl⟩ := List.append_singleton_inj.mp h
      exact Or.inl rfl
    · rw [← List.cons_append, ← List.append_assoc] at h
      obtain ⟨rfl, rfl⟩ := List.append_singleton_inj.mp h
      simp only [List.mem_append, List.mem_singleton, not_or] at hpushed htaken
      refine Or.inr ⟨⟨before, since, rfl, ?_, ?_⟩, ?_, ?_⟩
      · exact fun other => (hpushed other).1
      · exact fun other => (htaken other).1
      · exact fun other => Ne.symm (hpushed other).2
      · exact fun other => Ne.symm (htaken other).2
  · rintro (rfl | ⟨⟨before, since, rfl, hpushed, htaken⟩, hpushed', htaken'⟩)
    · exact ⟨events, [], rfl, by simp, by simp⟩
    · refine ⟨before, since ++ [event], by simp, ?_, ?_⟩
      · intro other
        simp [hpushed other, Ne.symm (hpushed' other)]
      · intro other
        simp [htaken other, Ne.symm (htaken' other)]

theorem not_outstanding_of_taken {before since : List Event} {other : Continuation}
    (h : ∀ other, .pushed id other ∉ since) :
    ¬ Outstanding (before ++ .taken id (some c) :: since) id other := by
  induction since using List.reverseRecOn with
  | nil => simp [outstanding_concat]
  | append_singleton since event ih =>
    simp only [List.mem_append, List.mem_singleton, not_or] at h
    rw [← List.cons_append, ← List.append_assoc, outstanding_concat]
    rintro (rfl | ⟨hsince, -⟩)
    · exact (h other).2 rfl
    · exact ih (fun other => (h other).1) hsince

end Outstanding

namespace Store

/-- Answers a request. Where nothing is found the store stays as it is. -/
def serve (store : Store) : Request → Event × Store
  | .push c => (.pushed (store.push c).1 c, (store.push c).2)
  | .take id =>
    match store.take id with
    | some (c, rest) => (.taken id (some c), rest)
    | none => (.taken id none, store)

def serveAll (store : Store) : List Request → List Event × Store
  | [] => ([], store)
  | request :: requests =>
    let served := store.serve request
    let rest := served.2.serveAll requests
    (served.1 :: rest.1, rest.2)

/-- What a new store becomes by the requests. -/
def after (requests : List Request) : Store := (empty.serveAll requests).2

/-- What comes of the requests on a new store, one event for each of them. -/
def log (requests : List Request) : List Event := (empty.serveAll requests).1

theorem serveAll_concat (store : Store) (requests : List Request) (request : Request) :
    store.serveAll (requests ++ [request]) =
      ((store.serveAll requests).1 ++ [((store.serveAll requests).2.serve request).1],
        ((store.serveAll requests).2.serve request).2) := by
  induction requests generalizing store with
  | nil => rfl
  | cons first requests ih => simp [serveAll, ih]

theorem after_concat (requests : List Request) (request : Request) :
    after (requests ++ [request]) = ((after requests).serve request).2 := by
  rw [after, serveAll_concat, after]

theorem log_concat (requests : List Request) (request : Request) :
    log (requests ++ [request]) = log requests ++ [((after requests).serve request).1] := by
  rw [log, serveAll_concat, log, after]

theorem serve_take_of_some {store rest : Store} {id : ContId} {c : Continuation}
    (h : store.take id = some (c, rest)) : store.serve (.take id) = (.taken id (some c), rest) := by
  simp [serve, h]

theorem serve_take_of_none {store : Store} {id : ContId} (h : store.take id = none) :
    store.serve (.take id) = (.taken id none, store) := by
  simp [serve, h]

theorem serve_take_event (store : Store) (id : ContId) :
    (store.serve (.take id)).1 = .taken id ((store.take id).map Prod.fst) := by
  cases htake : store.take id with
  | none => rw [serve_take_of_none htake, Option.map_none]
  | some found => rw [serve_take_of_some htake, Option.map_some]

theorem reachable_after (requests : List Request) : Reachable (after requests) := by
  induction requests using List.reverseRecOn with
  | nil => exact .empty
  | append_singleton requests request ih =>
    rw [after_concat]
    cases request with
    | push c => exact ih.push c
    | take id =>
      cases htake : (after requests).take id with
      | none => rwa [serve_take_of_none htake]
      | some found =>
        rw [serve_take_of_some htake]
        exact ih.take htake

theorem wellFormed_after (requests : List Request) : (after requests).WellFormed :=
  (reachable_after requests).wellFormed

/-- One request changes what waits under an id exactly as its event tells. -/
theorem waiting?_serve {store : Store} (h : store.WellFormed) (request : Request) (id : ContId)
    (c : Continuation) : (store.serve request).2.waiting? id = some c ↔
      (store.serve request).1 = .pushed id c ∨ (store.waiting? id = some c ∧
        (∀ other, (store.serve request).1 ≠ .pushed id other) ∧
          ∀ other, (store.serve request).1 ≠ .taken id (some other)) := by
  cases request with
  | push d =>
    simp only [serve, waiting?_push d h]
    by_cases heq : id = (store.push d).1
    · simp [heq]
    · simp [heq, Ne.symm heq]
  | take other =>
    by_cases hdone : other = .done
    · subst hdone
      have hne : store.waiting? id = some c → ContId.done ≠ id := by
        rintro hc rfl
        simp [waiting?] at hc
      simpa [serve_take_of_some (take_done store)] using fun hc heq => absurd heq (hne hc)
    · cases htake : store.take other with
      | none => simp [serve_take_of_none htake]
      | some found =>
        obtain ⟨-, -, hwaiting⟩ := rest_of_take h hdone htake
        rw [serve_take_of_some htake, hwaiting]
        by_cases heq : id = other
        · simp [heq]
        · simp [heq, Ne.symm heq]

/-- What waits is what the log leaves outstanding. -/
theorem waiting?_after (requests : List Request) (id : ContId) (c : Continuation) :
    (after requests).waiting? id = some c ↔ Outstanding (log requests) id c := by
  induction requests using List.reverseRecOn with
  | nil => exact iff_of_false (by simp [after, serveAll, waiting?_empty]) not_outstanding_nil
  | append_singleton requests request ih =>
    rw [after_concat, log_concat, outstanding_concat, ← ih,
      waiting?_serve (wellFormed_after requests)]

theorem take_after_iff (requests : List Request) {id : ContId} (hid : id ≠ .done)
    (c : Continuation) :
    (∃ rest, (after requests).take id = some (c, rest)) ↔ Outstanding (log requests) id c := by
  rw [← waiting?_after]
  constructor
  · rintro ⟨rest, htake⟩
    exact waiting?_of_take hid htake
  · intro h
    obtain ⟨rest, htake, -⟩ := take_of_waiting (wellFormed_after requests) h
    exact ⟨rest, htake⟩

theorem take_after_eq_none (requests : List Request) {id : ContId} (hid : id ≠ .done)
    (h : ∀ c, ¬ Outstanding (log requests) id c) : (after requests).take id = none := by
  rw [take_eq_none_iff hid, Option.eq_none_iff_forall_ne_some]
  intro c hc
  exact h c ((waiting?_after requests id c).mp hc)

/-- What has been taken out stays away as long as its id is not given again. -/
theorem take_after_eq_none_of_taken (requests : List Request) {id : ContId} (hid : id ≠ .done)
    {before since : List Event} {c : Continuation}
    (hlog : log requests = before ++ .taken id (some c) :: since)
    (h : ∀ other, .pushed id other ∉ since) : (after requests).take id = none := by
  apply take_after_eq_none requests hid
  intro other
  rw [hlog]
  exact not_outstanding_of_taken h

theorem pending_push {store : Store} (h : store.WellFormed) (c : Continuation) :
    (store.push c).2.pending = store.pending.insert (store.push c).1 c := by
  apply Finmap.ext_lookup
  intro id
  rw [lookup_pending, waiting?_push c h]
  by_cases heq : id = (store.push c).1
  · rw [if_pos heq, heq, Finmap.lookup_insert]
  · rw [if_neg heq, Finmap.lookup_insert_of_ne _ heq, lookup_pending]

/-- A request leaves alone what waits under any id that it does not take out. -/
theorem waiting?_serve_of_ne {store : Store} (h : store.WellFormed) {request : Request}
    {id : ContId} {c : Continuation} (hc : store.waiting? id = some c)
    (hne : request ≠ .take id) : (store.serve request).2.waiting? id = some c := by
  refine (waiting?_serve h request id c).mpr (Or.inr ⟨hc, ?_⟩)
  cases request with
  | push d =>
    have hfresh : (store.push d).1 ≠ id := by
      rintro rfl
      simp [waiting?_push_id d h] at hc
    simp [serve, hfresh]
  | take other =>
    have hother : other ≠ id := fun heq => hne (congrArg Request.take heq)
    simp [serve_take_event, hother]

/-- What a store answers is told by the log of its history, and the map of what waits is extended by
storing and shrunk by taking out. -/
theorem after_serves_map (requests : List Request) :
    (∀ id c, id ≠ .done →
      ((∃ rest, (after requests).take id = some (c, rest)) ↔ Outstanding (log requests) id c)) ∧
    (∀ id, id ≠ .done → (∀ c, ¬ Outstanding (log requests) id c) →
      (after requests).take id = none ∧
        (after requests).serve (.take id) = (.taken id none, after requests)) ∧
    (after requests).take .done = some (.done, after requests) ∧
    (∀ c, ((after requests).push c).1 ≠ .done ∧
      (after requests).waiting? ((after requests).push c).1 = none ∧
      ((after requests).push c).2.pending =
        (after requests).pending.insert ((after requests).push c).1 c) ∧
    (∀ id c rest, id ≠ .done → (after requests).take id = some (c, rest) →
      (after requests).pending.lookup id = some c ∧
        rest.pending = (after requests).pending.erase id) ∧
    (∀ request id c, (after requests).waiting? id = some c → request ≠ .take id →
      ((after requests).serve request).2.waiting? id = some c) ∧
    ∀ before since id c, id ≠ .done → log requests = before ++ .taken id (some c) :: since →
      (∀ other, .pushed id other ∉ since) → (after requests).take id = none := by
  have wellFormed := wellFormed_after requests
  refine ⟨?_, ?_, take_done _, ?_, ?_, ?_, ?_⟩
  · intro id c hid
    exact take_after_iff requests hid c
  · intro id hid hnone
    have htake := take_after_eq_none requests hid hnone
    exact ⟨htake, serve_take_of_none htake⟩
  · intro c
    exact ⟨push_id_ne_done c wellFormed, waiting?_push_id c wellFormed, pending_push wellFormed c⟩
  · intro id c rest hid htake
    rw [lookup_pending]
    exact ⟨waiting?_of_take hid htake, pending_of_take wellFormed hid htake⟩
  · intro request id c hc hne
    exact waiting?_serve_of_ne wellFormed hc hne
  · intro before since id c hid hlog hpushed
    exact take_after_eq_none_of_taken requests hid hlog hpushed

end Store

end CommittedRegex
