import CommittedRegex.Text.Basic

/-! # Parts of a text

A text that is cut in two can be read in either part. Behind the cut a word stands at the same offsets
as in the second part, moved by the size of the first. Before the cut it stands where it stands in the
first part. -/
namespace CommittedRegex.Text

variable {u v before after word : String} {start stop : Nat}

/-- What adds no size to a text is empty. -/
theorem eq_empty_of_size_le (h : (u ++ v).utf8ByteSize ≤ u.utf8ByteSize) : v = "" := by
  rw [String.utf8ByteSize_append] at h
  rw [← String.utf8ByteSize_eq_zero_iff]
  omega

/-- The longer one of two first parts of a text begins with the shorter one. -/
theorem exists_between (h : u ++ v = before ++ after) (hle : u.utf8ByteSize ≤ before.utf8ByteSize) :
    ∃ between, before = u ++ between ∧ v = between ++ after := by
  have hlist : u.toList ++ v.toList = before.toList ++ after.toList := by
    rw [← String.toList_append, h, String.toList_append]
  rcases List.append_eq_append_iff.mp hlist with ⟨between, hbefore, hv⟩ | ⟨between, hu, hafter⟩
  · refine ⟨String.ofList between, ?_, ?_⟩
    · simp [← String.toList_inj, hbefore]
    · simp [← String.toList_inj, hv]
  · have hsplit : u = before ++ String.ofList between := by simp [← String.toList_inj, hu]
    have hempty : String.ofList between = "" := eq_empty_of_size_le (hsplit ▸ hle)
    obtain rfl : between = [] := by simpa using hempty
    refine ⟨"", ?_, ?_⟩
    · simp [hsplit]
    · simp [← String.toList_inj, hafter]

/-- First parts of the same size are the same. -/
theorem eq_of_append_eq (h : u ++ v = before ++ after) (hsize : u.utf8ByteSize = before.utf8ByteSize) :
    u = before := by
  obtain ⟨between, rfl, -⟩ := exists_between h (Nat.le_of_eq hsize)
  rw [eq_empty_of_size_le (Nat.le_of_eq hsize.symm), String.append_empty]

/-- Behind the first part a word stands where it stands in the second part. -/
theorem stop?_append (word u v : String) (start : Nat) :
    stop? word (u ++ v) (u.utf8ByteSize + start) = (stop? word v start).map (u.utf8ByteSize + ·) := by
  apply Option.ext
  intro stop
  rw [stop?_eq_some_iff, Option.map_eq_some_iff]
  constructor
  · rintro ⟨before, after, split, hstart, hstop⟩
    obtain ⟨between, rfl, rfl⟩ := exists_between split (by omega)
    rw [String.utf8ByteSize_append] at hstart
    have stands : StandsAt word (between ++ (word ++ after)) start (start + word.utf8ByteSize) :=
      ⟨between, after, rfl, by omega, rfl⟩
    exact ⟨_, stop?_eq_some_iff.mpr stands, by omega⟩
  · rintro ⟨stop, h, rfl⟩
    obtain ⟨before, after, rfl, rfl, rfl⟩ := stop?_eq_some_iff.mp h
    refine ⟨u ++ before, after, ?_, ?_, ?_⟩
    · simp only [String.append_assoc]
    · rw [String.utf8ByteSize_append]
    · omega

/-- A word that ends in the first part stands there. -/
theorem StandsAt.of_append (h : StandsAt word (u ++ v) start stop) (hle : stop ≤ u.utf8ByteSize) :
    StandsAt word u start stop := by
  obtain ⟨before, after, split, rfl, rfl⟩ := h
  rw [← String.append_assoc] at split
  have hsize : (before ++ word).utf8ByteSize ≤ u.utf8ByteSize := by
    rwa [String.utf8ByteSize_append]
  obtain ⟨between, rfl, -⟩ := exists_between split.symm hsize
  exact ⟨before, between, by rw [String.append_assoc], rfl, rfl⟩

theorem StandsAt.append (h : StandsAt word u start stop) (v : String) :
    StandsAt word (u ++ v) start stop := by
  obtain ⟨before, after, rfl, rfl, rfl⟩ := h
  exact ⟨before, after ++ v, by simp only [String.append_assoc], rfl, rfl⟩

/-- A text may be cut behind the end of a word, without a change to where the word stands. -/
theorem stop?_of_le (h : ∀ stop ∈ stop? word (u ++ v) start, stop ≤ u.utf8ByteSize) :
    stop? word u start = stop? word (u ++ v) start := by
  apply Option.ext
  intro stop
  constructor
  · intro hstop
    exact stop?_eq_some_iff.mpr ((stop?_eq_some_iff.mp hstop).append v)
  · intro hstop
    exact stop?_eq_some_iff.mpr ((stop?_eq_some_iff.mp hstop).of_append (h stop hstop))

end CommittedRegex.Text
