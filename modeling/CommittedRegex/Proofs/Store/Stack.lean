import CommittedRegex.Proofs.Store.Layout

/-! # A store used as a stack

As long as only the continuation that was stored last is taken out, the continuations lie one above the
other in the first slots, and the empty slots above them are used again from the lowest one up. -/
namespace CommittedRegex.Store

/-- The continuations wait in the first slots, the list from the top down. -/
def Holds (store : Store) : List Continuation → Prop
  | [] => True
  | c :: below => store.waiting? ⟨below.length + 1⟩ = some c ∧ store.Holds below

/-- These continuations and no others wait, and the empty slots follow each other above them. -/
structure IsStack (store : Store) (frames : List Continuation) : Prop where
  live : store.live = frames.length
  free : store.free = List.range' (frames.length + 1) (store.peak - frames.length)
  holds : store.Holds frames

variable {store other : Store} {frames : List Continuation} {c : Continuation}

theorem isStack_empty : empty.IsStack [] := ⟨rfl, rfl, trivial⟩

theorem Holds.of_waiting (h : store.Holds frames)
    (hsame : ∀ index ≤ frames.length, other.waiting? ⟨index⟩ = store.waiting? ⟨index⟩) :
    other.Holds frames := by
  induction frames with
  | nil => trivial
  | cons c below ih =>
    refine ⟨(hsame _ (Nat.le_refl _)).trans h.1, ih h.2 fun index hindex => ?_⟩
    exact hsame index (Nat.le_succ_of_le hindex)

theorem Holds.exists_frame (h : store.Holds frames) {index : Nat} (hindex : index < frames.length) :
    ∃ c below, c :: below <:+ frames ∧ below.length = index ∧
      store.waiting? ⟨index + 1⟩ = some c := by
  induction frames with
  | nil => simp at hindex
  | cons c below ih =>
    by_cases htop : index = below.length
    · subst htop
      exact ⟨c, below, List.suffix_rfl, rfl, h.1⟩
    · rw [List.length_cons] at hindex
      obtain ⟨d, rest, hsuffix, hlength, hd⟩ := ih h.2 (by omega)
      exact ⟨d, rest, hsuffix.trans (List.suffix_cons c below), hlength, hd⟩

/-- There is no empty slot, or the lowest of them lies right above the stack. -/
theorem IsStack.free_cases (h : store.IsStack frames) (wellFormed : store.WellFormed) :
    (store.free = [] ∧ store.peak = frames.length) ∨
      ∃ room, store.peak = frames.length + 1 + room ∧
        store.free = (frames.length + 1) :: List.range' (frames.length + 1 + 1) room := by
  obtain ⟨room, hroom⟩ := Nat.exists_eq_add_of_le (h.live ▸ wellFormed.live_le_peak)
  have hfree := h.free
  rw [hroom, Nat.add_sub_cancel_left] at hfree
  cases room with
  | zero => exact Or.inl ⟨hfree, hroom⟩
  | succ room => exact Or.inr ⟨room, by omega, hfree.trans List.range'_succ⟩

/-- The slot above the stack is the next to be used. -/
theorem IsStack.push_id (h : store.IsStack frames) (wellFormed : store.WellFormed)
    (c : Continuation) : (store.push c).1 = ⟨frames.length + 1⟩ := by
  rcases h.free_cases wellFormed with ⟨hfree, hpeak⟩ | ⟨room, -, hfree⟩
  · have hsize := wellFormed.size_eq_peak
    rw [hpeak] at hsize
    simp [push, hfree, hsize]
  · simp [push, hfree]

theorem IsStack.push (h : store.IsStack frames) (wellFormed : store.WellFormed)
    (c : Continuation) : (store.push c).2.IsStack (c :: frames) where
  live := by rw [live_push, h.live, List.length_cons]
  free := by
    rw [peak_push, h.live, List.length_cons]
    rcases h.free_cases wellFormed with ⟨hfree, hpeak⟩ | ⟨room, hpeak, hfree⟩
    · simp [Store.push, hfree, hpeak]
    · simp [Store.push, hfree, hpeak]
  holds := by
    have hid := h.push_id wellFormed c
    refine ⟨?_, h.holds.of_waiting fun index hindex => ?_⟩
    · rw [waiting?_push c wellFormed, if_pos hid.symm]
    · rw [waiting?_push c wellFormed, hid, if_neg]
      rw [ContId.mk.injEq]
      omega

theorem IsStack.find?_top (h : store.IsStack (c :: frames)) :
    store.find? ⟨frames.length + 1⟩ = some c := by
  have hne : (⟨frames.length + 1⟩ : ContId) ≠ .done := by simp [ContId.done]
  rw [find?, if_neg hne]
  exact h.holds.1

theorem IsStack.remove_top (h : store.IsStack (c :: frames)) (wellFormed : store.WellFormed) :
    (store.remove ⟨frames.length + 1⟩).IsStack frames := by
  have hne : (⟨frames.length + 1⟩ : ContId) ≠ .done := by simp [ContId.done]
  have hle := wellFormed.live_le_peak
  have hlive := h.live
  rw [List.length_cons] at hlive
  obtain ⟨rest, htake, fewer, hpeak, hwaiting⟩ := take_of_waiting wellFormed h.holds.1
  obtain ⟨-, -, hfree, -⟩ := free_take wellFormed hne htake
  obtain rfl := eq_remove_of_take htake
  refine ⟨by omega, ?_, h.holds.2.of_waiting fun index hindex => ?_⟩
  · have hroom : store.peak - frames.length = store.peak - (frames.length + 1) + 1 := by omega
    rw [hfree, h.free, hpeak, hroom, List.range'_succ, List.length_cons]
  · rw [hwaiting, if_neg]
    rw [ContId.mk.injEq]
    omega

/-- The slots in use are the first ones. -/
theorem IsStack.slot_iff (h : store.IsStack frames) (wellFormed : store.WellFormed) (index : Nat) :
    (∃ c, store.slots[index]? = some (some c)) ↔ index ≤ frames.length := by
  have hle := wellFormed.live_le_peak
  have hsize := wellFormed.size_eq_peak
  have hfree := wellFormed.mem_free_iff index
  rw [h.live] at hle
  rw [h.free, List.mem_range'_1] at hfree
  cases hslot : store.slots[index]? with
  | none =>
    have hge := Array.getElem?_eq_none_iff.mp hslot
    simp only [reduceCtorEq, exists_false, false_iff]
    omega
  | some found =>
    have hlt := lt_size_of_eq_some hslot
    rw [hslot, Option.some.injEq] at hfree
    cases found with
    | none =>
      have := hfree.mpr rfl
      simp only [Option.some.injEq, reduceCtorEq, exists_false, false_iff]
      omega
    | some c =>
      have := mt hfree.mp (Option.some_ne_none c)
      simp only [Option.some.injEq, exists_eq', true_iff]
      omega

end CommittedRegex.Store
