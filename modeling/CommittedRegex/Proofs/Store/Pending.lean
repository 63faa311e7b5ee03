import CommittedRegex.Store.Lemmas
import Mathlib.Data.Finmap

/-! # What waits in a store

The finite map from ids to waiting continuations forgets the layout of a store: the order of the free
list, the number of slots, the peak. The counter of a store is the size of the map. -/
namespace CommittedRegex

abbrev Pending := Finmap fun _ : ContId => Continuation

namespace Store

def waitingIds (store : Store) : Finset ContId :=
  ((Finset.range store.slots.size).image ContId.mk).filter fun id => (store.waiting? id).isSome

private theorem mem_waitingIds {store : Store} {id : ContId} :
    id ∈ store.waitingIds ↔ (store.waiting? id).isSome := by
  simp only [waitingIds, Finset.mem_filter, Finset.mem_image, Finset.mem_range,
    and_iff_right_iff_imp]
  intro h
  obtain ⟨c, hc⟩ := Option.isSome_iff_exists.mp h
  exact ⟨id.index, lt_size_of_eq_some (slot_of_waiting? hc), rfl⟩

/-- The map from ids to the continuations that wait under them. -/
def pending (store : Store) : Pending :=
  Finmap.keysLookupEquiv.symm ⟨(store.waitingIds, store.waiting?), fun _ => mem_waitingIds.symm⟩

@[simp] theorem lookup_pending (store : Store) (id : ContId) :
    store.pending.lookup id = store.waiting? id := by
  simp [pending]

@[simp] theorem keys_pending (store : Store) : store.pending.keys = store.waitingIds := by
  simp [pending]

theorem Agrees.pending_eq {a b : Store} (h : Agrees a b) : a.pending = b.pending := by
  apply Finmap.ext_lookup
  intro id
  rw [lookup_pending, lookup_pending, h.waiting]

/-- Taking a continuation out erases it from the map and nothing else. -/
theorem pending_of_take {store rest : Store} {id : ContId} {c : Continuation}
    (h : store.WellFormed) (hid : id ≠ .done) (htake : store.take id = some (c, rest)) :
    rest.pending = store.pending.erase id := by
  obtain ⟨-, -, hwaiting⟩ := rest_of_take h hid htake
  apply Finmap.ext_lookup
  intro other
  rw [lookup_pending, hwaiting]
  by_cases heq : other = id
  · rw [if_pos heq, heq, Finmap.lookup_erase]
  · rw [if_neg heq, Finmap.lookup_erase_ne heq, lookup_pending]

/-- Something waits exactly in the slots that are neither the terminal one nor free. -/
theorem WellFormed.image_waitingIds {store : Store} (h : store.WellFormed) :
    store.waitingIds.image ContId.index =
      Finset.range store.slots.size \ insert 0 store.free.toFinset := by
  ext index
  simp only [Finset.mem_image, mem_waitingIds, Finset.mem_sdiff, Finset.mem_range,
    Finset.mem_insert, List.mem_toFinset, h.mem_free_iff, not_or]
  constructor
  · rintro ⟨id, hid, rfl⟩
    obtain ⟨c, hc⟩ := Option.isSome_iff_exists.mp hid
    have hslot := slot_of_waiting? hc
    refine ⟨lt_size_of_eq_some hslot, ?_, by simp [hslot]⟩
    intro hzero
    have hdone : id = .done := congrArg ContId.mk hzero
    simp [hdone, waiting?] at hc
  · rintro ⟨hlt, hne, hused⟩
    have hid : (⟨index⟩ : ContId) ≠ .done := fun heq => hne (congrArg ContId.index heq)
    refine ⟨⟨index⟩, ?_, rfl⟩
    rw [Array.getElem?_eq_getElem hlt] at hused
    obtain ⟨c, hc⟩ := Option.ne_none_iff_exists'.mp fun hnone => hused (congrArg some hnone)
    simp [waiting?, hid, Array.getElem?_eq_getElem hlt, hc]

/-- The counter of a store counts what waits. -/
theorem WellFormed.card_waitingIds {store : Store} (h : store.WellFormed) :
    store.waitingIds.card = store.live := by
  have hinj : Function.Injective ContId.index := fun _ _ heq => congrArg ContId.mk heq
  have hsubset : insert 0 store.free.toFinset ⊆ Finset.range store.slots.size := by
    intro index hindex
    rw [Finset.mem_insert, List.mem_toFinset, h.mem_free_iff] at hindex
    rw [Finset.mem_range]
    rcases hindex with rfl | hfree
    · exact lt_size_of_eq_some h.terminal
    · exact lt_size_of_eq_some hfree
  have hzero : 0 ∉ store.free.toFinset := by
    rw [List.mem_toFinset, h.mem_free_iff, h.terminal]
    simp
  have size := h.size_eq
  rw [← Finset.card_image_of_injective _ hinj, h.image_waitingIds,
    Finset.card_sdiff_of_subset hsubset, Finset.card_range, Finset.card_insert_of_notMem hzero,
    List.toFinset_card_of_nodup h.free_nodup]
  omega

end Store

end CommittedRegex
