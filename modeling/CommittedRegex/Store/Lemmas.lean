import CommittedRegex.Store.Basic

/-! # What storing and taking out do

A store that came out of the empty one is well formed: its free list names the empty slots once each,
and the counters tell how many slots are in use. From this it follows that storing touches no
continuation that waits, and that taking out removes exactly the one that was asked for. Two stores
agree when the same continuations wait in them under the same ids. -/
namespace CommittedRegex.Store

/-- The free list and the counters fit the slots. -/
structure WellFormed (store : Store) : Prop where
  terminal : store.slots[0]? = some (some .done)
  free_nodup : store.free.Nodup
  mem_free_iff : ∀ index, index ∈ store.free ↔ store.slots[index]? = some none
  size_eq : store.slots.size = store.free.length + store.live + 1
  size_eq_peak : store.slots.size = store.peak + 1

private theorem getElem?_set (slots : Array (Option Continuation)) (i j : Nat)
    (x : Option Continuation) (h : i < slots.size) :
    (slots.setIfInBounds i x)[j]? = if i = j then some x else slots[j]? := by
  simp [Array.getElem?_setIfInBounds, h]

theorem lt_size_of_eq_some {slots : Array (Option Continuation)} {i : Nat}
    {x : Option Continuation} (h : slots[i]? = some x) : i < slots.size :=
  (Array.getElem?_eq_some_iff.mp h).1

theorem WellFormed.live_le_peak {store : Store} (h : store.WellFormed) :
    store.live ≤ store.peak := by
  have := h.size_eq
  have := h.size_eq_peak
  omega

theorem wellFormed_empty : empty.WellFormed where
  terminal := rfl
  free_nodup := List.nodup_nil
  mem_free_iff index := by
    cases index <;> simp [empty]
  size_eq := rfl
  size_eq_peak := rfl

theorem WellFormed.push {store : Store} (h : store.WellFormed) (c : Continuation) :
    (store.push c).2.WellFormed := by
  cases hfree : store.free with
  | nil =>
    have size := h.size_eq
    have peak := h.size_eq_peak
    simp only [hfree, List.length_nil] at size
    have hfree' : ∀ index, store.slots[index]? ≠ some none := fun index heq => by
      have := (h.mem_free_iff index).mpr heq
      simp [hfree] at this
    simp only [Store.push, hfree]
    constructor
    · have bound := lt_size_of_eq_some h.terminal
      rw [Array.getElem?_push, if_neg (Nat.ne_of_lt bound), h.terminal]
    · exact List.nodup_nil
    · intro index
      have := hfree' index
      simp only [List.not_mem_nil, Array.getElem?_push, false_iff]
      split <;> simp_all
    · simp only [Array.size_push, List.length_nil]
      omega
    · simp only [Array.size_push]
      omega
  | cons index free =>
    have size := h.size_eq
    have peak := h.size_eq_peak
    have hindex := (h.mem_free_iff index).mp (by simp [hfree])
    have nodup := h.free_nodup
    simp only [hfree, List.length_cons] at size
    rw [hfree, List.nodup_cons] at nodup
    have bound := lt_size_of_eq_some hindex
    simp only [Store.push, hfree]
    constructor
    · have hne : index ≠ 0 := by
        rintro rfl
        simp [h.terminal] at hindex
      simp [getElem?_set _ _ _ _ bound, hne, h.terminal]
    · exact nodup.2
    · intro other
      have mem := h.mem_free_iff other
      simp only [hfree, List.mem_cons] at mem
      simp only [getElem?_set _ _ _ _ bound]
      by_cases heq : index = other
      · subst heq
        simp [nodup.1]
      · simp only [heq, if_false, ← mem, eq_comm, false_or]
    · simp only [Array.size_setIfInBounds]
      omega
    · simp only [Array.size_setIfInBounds]
      omega

theorem take_done (store : Store) : store.take .done = some (.done, store) := by
  simp [take, find?, remove]

theorem take_of_find? {store : Store} {id : ContId} {c : Continuation}
    (h : store.find? id = some c) : store.take id = some (c, store.remove id) := by
  simp [take, h]

theorem find?_of_take {store rest : Store} {id : ContId} {c : Continuation}
    (h : store.take id = some (c, rest)) : store.find? id = some c := by
  simp only [take] at h
  split at h
  · rename_i hfind
    simp only [Option.some.injEq, Prod.mk.injEq] at h
    exact h.1 ▸ hfind
  · simp at h

theorem waiting?_eq_none_of_find? {store : Store} {id : ContId} (h : store.find? id = none) :
    store.waiting? id = none := by
  unfold find? at h
  split at h
  · cases h
  · exact h

theorem waiting?_of_take {store rest : Store} {id : ContId} {c : Continuation} (hid : id ≠ .done)
    (h : store.take id = some (c, rest)) : store.waiting? id = some c := by
  simpa [find?, hid] using find?_of_take h

theorem waiting?_empty (id : ContId) : empty.waiting? id = none := by
  cases id with
  | mk index =>
    cases index with
    | zero => rfl
    | succ index => simp [waiting?, empty]

theorem slot_of_waiting? {store : Store} {id : ContId} {c : Continuation}
    (h : store.waiting? id = some c) : store.slots[id.index]? = some (some c) := by
  unfold waiting? at h
  split at h
  · simp at h
  · simpa [Option.join_eq_some_iff] using h

private theorem remove_eq {store : Store} {id : ContId} (hid : id ≠ .done) :
    store.remove id = { store with
      slots := store.slots.setIfInBounds id.index none
      free := id.index :: store.free
      live := store.live - 1 } := by
  simp [remove, hid]

theorem eq_remove_of_take {store rest : Store} {id : ContId} {c : Continuation}
    (h : store.take id = some (c, rest)) : rest = store.remove id := by
  simp only [take] at h
  split at h
  · simp only [Option.some.injEq, Prod.mk.injEq] at h
    exact h.2.symm
  · simp at h

private theorem index_ne_zero {id : ContId} (hid : id ≠ .done) : id.index ≠ 0 := fun h =>
  hid (by cases id; simp_all [ContId.done])

private theorem live_pos {store : Store} (h : store.WellFormed) {i : Nat} {c : Continuation}
    (hi : i ≠ 0) (hslot : store.slots[i]? = some (some c)) : 0 < store.live := by
  have size := h.size_eq
  have bound := lt_size_of_eq_some hslot
  have nodup : (0 :: i :: store.free).Nodup := by
    have hzero : 0 ∉ store.free := fun mem => by
      have := (h.mem_free_iff 0).mp mem
      simp [h.terminal] at this
    have hused : i ∉ store.free := fun mem => by
      have := (h.mem_free_iff i).mp mem
      simp [hslot] at this
    simp [h.free_nodup, hzero, hused, hi.symm]
  have subset : (0 :: i :: store.free) ⊆ List.range store.slots.size := by
    intro k hk
    simp only [List.mem_cons] at hk
    rw [List.mem_range]
    obtain rfl | rfl | mem := hk
    · exact lt_size_of_eq_some h.terminal
    · exact bound
    · exact lt_size_of_eq_some ((h.mem_free_iff k).mp mem)
  have := nodup.length_le_of_subset subset
  simp only [List.length_cons, List.length_range] at this
  omega

theorem WellFormed.take {store rest : Store} {id : ContId} {c : Continuation}
    (h : store.WellFormed) (ht : store.take id = some (c, rest)) : rest.WellFormed := by
  by_cases hid : id = .done
  · subst hid
    simp only [take_done, Option.some.injEq, Prod.mk.injEq] at ht
    exact ht.2 ▸ h
  · have hslot := slot_of_waiting? (waiting?_of_take hid ht)
    obtain rfl := eq_remove_of_take ht
    rw [remove_eq hid]
    have bound := lt_size_of_eq_some hslot
    have hne := index_ne_zero hid
    have size := h.size_eq
    have peak := h.size_eq_peak
    have live := live_pos h hne hslot
    constructor
    · simp [getElem?_set _ _ _ _ bound, hne, h.terminal]
    · refine List.nodup_cons.mpr ⟨fun mem => ?_, h.free_nodup⟩
      simp [(h.mem_free_iff _).mp mem] at hslot
    · intro other
      have mem := h.mem_free_iff other
      simp only [getElem?_set _ _ _ _ bound, List.mem_cons]
      by_cases heq : id.index = other
      · simp [heq]
      · simp [heq, Ne.symm heq, mem]
    · simp only [Array.size_setIfInBounds, List.length_cons]
      omega
    · simpa only [Array.size_setIfInBounds] using peak

theorem Reachable.wellFormed {store : Store} (h : Reachable store) : store.WellFormed := by
  induction h with
  | empty => exact wellFormed_empty
  | push c _ ih => exact ih.push c
  | take _ ht ih => exact ih.take ht

section Push

variable {store : Store} (c : Continuation)

@[simp] theorem live_push : (store.push c).2.live = store.live + 1 := by
  simp only [push]
  split <;> rfl

@[simp] theorem peak_push : (store.push c).2.peak = max store.peak (store.live + 1) := by
  simp only [push]
  split <;> rfl

theorem push_id_ne_done (h : store.WellFormed) : (store.push c).1 ≠ .done := by
  intro heq
  have index : (store.push c).1.index = 0 := congrArg ContId.index heq
  have terminal := h.terminal
  cases hfree : store.free with
  | nil =>
    simp only [push, hfree] at index
    have := lt_size_of_eq_some terminal
    omega
  | cons i free =>
    simp only [push, hfree] at index
    have := (h.mem_free_iff i).mp (by simp [hfree])
    simp [index, terminal] at this

theorem waiting?_push_id (h : store.WellFormed) : store.waiting? (store.push c).1 = none := by
  simp only [waiting?, push_id_ne_done c h, if_false]
  cases hfree : store.free with
  | nil => simp [push, hfree]
  | cons i free => simp [push, hfree, (h.mem_free_iff i).mp (by simp [hfree])]

theorem waiting?_push (h : store.WellFormed) (id : ContId) :
    (store.push c).2.waiting? id =
      if id = (store.push c).1 then some c else store.waiting? id := by
  have hne := push_id_ne_done c h
  by_cases hdone : id = .done
  · subst hdone
    simp [waiting?, hne.symm]
  · have hindex : ∀ n : Nat, id = ⟨n⟩ ↔ n = id.index := fun n => by
      cases id
      simp [eq_comm]
    simp only [waiting?, hdone, if_false]
    cases hfree : store.free with
    | nil =>
      simp only [push, hfree, Array.getElem?_push, hindex, eq_comm]
      split <;> rfl
    | cons i free =>
      have bound := lt_size_of_eq_some ((h.mem_free_iff i).mp (by simp [hfree]))
      simp only [push, hfree, getElem?_set _ _ _ _ bound, hindex]
      split <;> rfl

end Push

theorem take_eq_none_iff {store : Store} {id : ContId} (hid : id ≠ .done) :
    store.take id = none ↔ store.waiting? id = none := by
  simp only [take, find?, hid, if_false]
  cases store.waiting? id <;> simp

/-- Taking out gives the continuation that waits, and removes it and nothing else. -/
theorem take_of_waiting {store : Store} (h : store.WellFormed) {id : ContId} {c : Continuation}
    (hc : store.waiting? id = some c) :
    ∃ rest, store.take id = some (c, rest) ∧ rest.live + 1 = store.live ∧ rest.peak = store.peak ∧
      ∀ other, rest.waiting? other = if other = id then none else store.waiting? other := by
  have hid : id ≠ .done := fun heq => by simp [waiting?, heq] at hc
  have hslot := slot_of_waiting? hc
  have bound := lt_size_of_eq_some hslot
  have live := live_pos h (index_ne_zero hid) hslot
  refine ⟨store.remove id, take_of_find? (by simp [find?, hid, hc]), ?_, ?_, fun other => ?_⟩
  all_goals rw [remove_eq hid]
  · simp only
    omega
  · have hindex : other = id ↔ id.index = other.index := by
      cases id
      cases other
      simp [eq_comm]
    by_cases hdone : other = .done
    · simp [waiting?, hdone]
    · simp only [waiting?, hdone, if_false, getElem?_set _ _ _ _ bound, hindex]
      split <;> rfl

theorem rest_of_take {store rest : Store} {id : ContId} {c : Continuation} (h : store.WellFormed)
    (hid : id ≠ .done) (htake : store.take id = some (c, rest)) :
    rest.live + 1 = store.live ∧ rest.peak = store.peak ∧
      ∀ other, rest.waiting? other = if other = id then none else store.waiting? other := by
  obtain ⟨rest', htake', hrest⟩ := take_of_waiting h (waiting?_of_take hid htake)
  rw [htake] at htake'
  cases htake'
  exact hrest

section Take

variable {store rest : Store} {id : ContId} {c : Continuation}

theorem peak_take (h : store.WellFormed) (htake : store.take id = some (c, rest)) :
    rest.peak = store.peak := by
  by_cases hid : id = .done
  · rw [hid, take_done, Option.some.injEq, Prod.mk.injEq] at htake
    rw [htake.2]
  · exact (rest_of_take h hid htake).2.1

/-- Taking out makes nothing new wait. -/
theorem waiting?_of_rest (h : store.WellFormed) (htake : store.take id = some (c, rest))
    {other : ContId} {d : Continuation} (hd : rest.waiting? other = some d) :
    store.waiting? other = some d := by
  by_cases hid : id = .done
  · rw [hid, take_done, Option.some.injEq, Prod.mk.injEq] at htake
    rwa [htake.2]
  · obtain ⟨-, -, hwaiting⟩ := rest_of_take h hid htake
    rw [hwaiting] at hd
    split at hd
    · cases hd
    · exact hd

end Take

/-- The same continuations wait in both stores under the same ids. -/
structure Agrees (a b : Store) : Prop where
  waiting : ∀ id, a.waiting? id = b.waiting? id
  live : a.live = b.live

theorem Agrees.refl (store : Store) : Agrees store store := ⟨fun _ => rfl, rfl⟩

theorem Agrees.symm {a b : Store} (h : Agrees a b) : Agrees b a :=
  ⟨fun id => (h.waiting id).symm, h.live.symm⟩

theorem Agrees.trans {a b c : Store} (h : Agrees a b) (h' : Agrees b c) : Agrees a c :=
  ⟨fun id => (h.waiting id).trans (h'.waiting id), h.live.trans h'.live⟩

private theorem slot_iff_waiting? {store : Store} {index : Nat} (hindex : index ≠ 0)
    (c : Continuation) :
    store.slots[index]? = some (some c) ↔ store.waiting? ⟨index⟩ = some c := by
  have hid : (⟨index⟩ : ContId) ≠ .done := fun h => hindex (congrArg ContId.index h)
  simp only [waiting?, hid, if_false, Option.join_eq_some_iff]

/-- Stores that agree have the same slots in use, with the same continuations in them. -/
theorem Agrees.slot_iff {a b : Store} (h : Agrees a b) (ha : a.WellFormed) (hb : b.WellFormed)
    (index : Nat) (c : Continuation) :
    a.slots[index]? = some (some c) ↔ b.slots[index]? = some (some c) := by
  by_cases hindex : index = 0
  · rw [hindex, ha.terminal, hb.terminal]
  · rw [slot_iff_waiting? hindex, slot_iff_waiting? hindex, h.waiting]

/-- Taking out what was stored last, whatever happened to the layout in between, brings back the
store as it was. -/
theorem take_push {store after : Store} (h : store.WellFormed) (h' : after.WellFormed)
    (c : Continuation) (agrees : Agrees after (store.push c).2) :
    ∃ rest, after.take (store.push c).1 = some (c, rest) ∧ Agrees rest store ∧
      rest.peak = after.peak := by
  obtain ⟨rest, htake, hlive, hpeak, hwaiting⟩ :=
    @take_of_waiting _ h' (store.push c).1 c (by
      rw [agrees.waiting, waiting?_push c h, if_pos rfl])
  refine ⟨rest, htake, ⟨fun id => ?_, ?_⟩, hpeak⟩
  · rw [hwaiting, agrees.waiting, waiting?_push c h]
    split
    · rename_i heq
      rw [heq, waiting?_push_id c h]
    · rfl
  · have := agrees.live
    rw [live_push] at this
    omega

end CommittedRegex.Store
