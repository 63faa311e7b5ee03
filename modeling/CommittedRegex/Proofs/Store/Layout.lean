import CommittedRegex.Proofs.Store.History
import Mathlib.Order.Bounds.Basic

/-! # How a store lays out its slots

Whatever a caller asks of a store, the free list names the empty slots once each, the counter tells how
many slots are in use, and there are never more slots than were needed at the same time. So storing
writes to a slot that is empty or new, and taking out empties a slot that was in use. -/
namespace CommittedRegex.Store

/-- The slots in use, the terminal one among them. -/
def occupied (store : Store) : Finset Nat :=
  (Finset.range store.slots.size).filter fun index => store.slots[index]?.join.isSome

/-- The slots, the free list and the counters fit together. -/
structure Layout (store : Store) : Prop where
  terminal : store.slots[0]? = some (some .done)
  free_nodup : store.free.Nodup
  mem_free_iff : ∀ index, index ∈ store.free ↔ store.slots[index]? = some none
  live_eq_card : store.live = (store.occupied.erase 0).card
  live_le_peak : store.live ≤ store.peak
  size_eq_peak : store.slots.size = store.peak + 1

theorem WellFormed.occupied_erase {store : Store} (h : store.WellFormed) :
    store.occupied.erase 0 = store.waitingIds.image ContId.index := by
  rw [h.image_waitingIds]
  ext index
  simp only [occupied, Finset.mem_erase, Finset.mem_filter, Finset.mem_range, Finset.mem_sdiff,
    Finset.mem_insert, List.mem_toFinset, h.mem_free_iff, not_or]
  constructor
  · rintro ⟨hne, hlt, hused⟩
    refine ⟨hlt, hne, fun hnone => ?_⟩
    simp [hnone] at hused
  · rintro ⟨hlt, hne, hused⟩
    refine ⟨hne, hlt, ?_⟩
    rw [Array.getElem?_eq_getElem hlt, Option.some.injEq] at hused
    rw [Array.getElem?_eq_getElem hlt, Option.join_some]
    exact Option.isSome_iff_ne_none.mpr hused

theorem WellFormed.layout {store : Store} (h : store.WellFormed) : store.Layout where
  terminal := h.terminal
  free_nodup := h.free_nodup
  mem_free_iff := h.mem_free_iff
  live_eq_card := by
    have hinj : Function.Injective ContId.index := fun _ _ heq => congrArg ContId.mk heq
    rw [h.occupied_erase, Finset.card_image_of_injective _ hinj, h.card_waitingIds]
  live_le_peak := h.live_le_peak
  size_eq_peak := h.size_eq_peak

section Push

variable {store : Store} (c : Continuation)

/-- A continuation is written to an empty slot, or to a new one behind the last. -/
theorem push_slot (h : store.WellFormed) :
    store.slots[(store.push c).1.index]? = some none ∨
      (store.push c).1.index = store.slots.size := by
  cases hfree : store.free with
  | nil => exact Or.inr (by simp [push, hfree])
  | cons index free =>
    have hempty := (h.mem_free_iff index).mp (by simp [hfree])
    exact Or.inl (by simpa [push, hfree] using hempty)

theorem getElem?_push (h : store.WellFormed) (index : Nat) :
    (store.push c).2.slots[index]? =
      if index = (store.push c).1.index then some (some c) else store.slots[index]? := by
  cases hfree : store.free with
  | nil => simp [push, hfree, Array.getElem?_push]
  | cons first free =>
    have hlt := lt_size_of_eq_some ((h.mem_free_iff first).mp (by simp [hfree]))
    simp [push, hfree, Array.getElem?_setIfInBounds, hlt, eq_comm]

/-- Storing overwrites no continuation. -/
theorem getElem?_push_of_eq_some (h : store.WellFormed) {index : Nat} {d : Continuation}
    (hd : store.slots[index]? = some (some d)) :
    (store.push c).2.slots[index]? = some (some d) := by
  rw [getElem?_push c h, if_neg, hd]
  rintro rfl
  rcases push_slot c h with hempty | hnew
  · simp [hempty] at hd
  · exact Nat.lt_irrefl _ (hnew ▸ lt_size_of_eq_some hd)

/-- A slot is added only if more continuations wait than ever before. -/
theorem size_push (h : store.WellFormed) : (store.push c).2.slots.size =
    if store.peak < (store.push c).2.live then store.slots.size + 1 else store.slots.size := by
  have hpush := (h.push c).size_eq_peak
  rw [peak_push] at hpush
  have hsize := h.size_eq_peak
  have hlive := h.live_le_peak
  rw [live_push]
  split <;> omega

end Push

section Take

variable {store rest : Store} {id : ContId} {c : Continuation}

/-- Taking out gives the slot to the free list, which did not have it. -/
theorem free_take (h : store.WellFormed) (hid : id ≠ .done)
    (htake : store.take id = some (c, rest)) :
    id.index ≠ 0 ∧ id.index ∉ store.free ∧ rest.free = id.index :: store.free ∧
      rest.slots.size = store.slots.size := by
  have hslot := slot_of_waiting? (waiting?_of_take hid htake)
  obtain rfl := eq_remove_of_take htake
  refine ⟨fun hzero => hid (congrArg ContId.mk hzero), fun hfree => ?_, ?_, ?_⟩
  · simp [(h.mem_free_iff _).mp hfree] at hslot
  · simp [remove, hid]
  · simp [remove, hid]

end Take

/-- The peak goes along with the counter whenever that rises above it. -/
theorem peak_serve {store : Store} (h : store.WellFormed) (request : Request) :
    (store.serve request).2.peak = max store.peak (store.serve request).2.live := by
  have hlive := h.live_le_peak
  cases request with
  | push c => simp [serve]
  | take id =>
    by_cases hid : id = .done
    · subst hid
      rw [serve_take_of_some (take_done store), max_eq_left hlive]
    · cases htake : store.take id with
      | none => rw [serve_take_of_none htake, max_eq_left hlive]
      | some found =>
        obtain ⟨fewer, hpeak, -⟩ := rest_of_take h hid htake
        have hrest : found.2.live ≤ store.peak := by omega
        rw [serve_take_of_some htake, hpeak, max_eq_left hrest]

/-- The peak is the largest number of continuations that waited at any time. -/
theorem isGreatest_peak (requests : List Request) :
    IsGreatest {live | ∃ before, before <+: requests ∧ (after before).live = live}
      (after requests).peak := by
  induction requests using List.reverseRecOn with
  | nil =>
    refine ⟨⟨[], List.prefix_rfl, rfl⟩, ?_⟩
    rintro live ⟨before, hbefore, rfl⟩
    rw [List.prefix_nil.mp hbefore]
    exact Nat.le_refl _
  | append_singleton requests request ih =>
    have hset : {live | ∃ before, before <+: requests ++ [request] ∧ (after before).live = live} =
        insert (after (requests ++ [request])).live
          {live | ∃ before, before <+: requests ∧ (after before).live = live} := by
      ext live
      simp only [Set.mem_ofPred_eq, Set.mem_insert_iff, List.prefix_concat_iff, or_and_right,
        exists_or, exists_eq_left, eq_comm]
    rw [hset, after_concat, peak_serve (wellFormed_after requests), max_comm]
    exact ih.insert _

/-- After any requests the layout fits and has as many slots as the largest number of continuations
that ever waited at the same time, with the terminal one. -/
theorem layout_after (requests : List Request) :
    (after requests).Layout ∧
    IsGreatest {live | ∃ before, before <+: requests ∧ (after before).live = live}
      (after requests).peak ∧
    (∀ c id next, (after requests).push c = (id, next) →
      (∀ index ∈ (after requests).free, index < (after requests).slots.size) ∧
      ((after requests).slots[id.index]? = some none ∨
        id.index = (after requests).slots.size) ∧
      next.slots[id.index]? = some (some c) ∧
      (∀ (index : Nat) (d : Continuation), (after requests).slots[index]? = some (some d) →
        next.slots[index]? = some (some d)) ∧
      next.slots.size = if (after requests).peak < next.live then (after requests).slots.size + 1
        else (after requests).slots.size) ∧
    ∀ id c rest, id ≠ .done → (after requests).take id = some (c, rest) →
      rest.live + 1 = (after requests).live ∧ id.index ≠ 0 ∧ id.index ∉ (after requests).free ∧
      rest.free = id.index :: (after requests).free ∧
      rest.slots.size = (after requests).slots.size := by
  have wellFormed := wellFormed_after requests
  refine ⟨wellFormed.layout, isGreatest_peak requests, ?_, ?_⟩
  · rintro c id next hpush
    obtain rfl : ((after requests).push c).1 = id := congrArg Prod.fst hpush
    obtain rfl : ((after requests).push c).2 = next := congrArg Prod.snd hpush
    refine ⟨?_, push_slot c wellFormed, ?_, ?_, size_push c wellFormed⟩
    · intro index hfree
      exact lt_size_of_eq_some ((wellFormed.mem_free_iff index).mp hfree)
    · rw [getElem?_push c wellFormed, if_pos rfl]
    · intro index d hd
      exact getElem?_push_of_eq_some c wellFormed hd
  · intro id c rest hid htake
    exact ⟨(rest_of_take wellFormed hid htake).1, free_take wellFormed hid htake⟩

end CommittedRegex.Store
