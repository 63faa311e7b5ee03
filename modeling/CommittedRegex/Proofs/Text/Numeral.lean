import Mathlib.Data.List.TakeWhile
import CommittedRegex.Text.Basic

/-! # Numerals and trimmed texts

A text reads as a number exactly if it is a numeral of that value, and trimming takes away exactly the
blanks at the two ends. -/
namespace CommittedRegex.Text

/-- An optional plus sign and one or more ASCII digits, of a value that 64 bits hold. -/
def IsNumeral (cs : List Char) (n : Nat) : Prop :=
  ∃ digits, (cs = digits ∨ cs = '+' :: digits) ∧ digits ≠ [] ∧ (∀ c ∈ digits, c.isDigit = true) ∧
    Nat.ofDigitChars 10 digits 0 = n ∧ n < UInt64.size

theorem le_maxWord_iff {n : Nat} : n ≤ maxWord ↔ n < UInt64.size := Nat.lt_succ_iff.symm

theorem le_ofDigitChars (digits : List Char) (value : Nat) : value ≤ Nat.ofDigitChars 10 digits value := by
  induction digits generalizing value with
  | nil => exact Nat.le_refl value
  | cons c digits ih =>
    rw [Nat.ofDigitChars_cons]
    have := ih (10 * value + (c.toNat - '0'.toNat))
    omega

theorem wordAfter?_eq_some_iff {digits : List Char} {value n : Nat} (hvalue : value ≤ maxWord) :
    wordAfter? value digits = some n ↔
      (∀ c ∈ digits, c.isDigit = true) ∧ Nat.ofDigitChars 10 digits value = n ∧ n < UInt64.size := by
  rw [← le_maxWord_iff]
  induction digits generalizing value with
  | nil =>
    rw [wordAfter?, Nat.ofDigitChars_nil]
    simp only [Option.some.injEq, List.not_mem_nil, false_implies, implies_true, true_and]
    exact ⟨fun h => ⟨h, h ▸ hvalue⟩, And.left⟩
  | cons c digits ih =>
    rw [wordAfter?, Nat.ofDigitChars_cons, Nat.mul_comm value 10]
    by_cases hnext : 10 * value + (c.toNat - '0'.toNat) ≤ maxWord
    · by_cases hc : c.isDigit = true
      · rw [if_pos ⟨hc, hnext⟩, ih hnext]
        simp [hc]
      · simp [hc]
    · rw [if_neg (fun h => hnext h.2)]
      have hle := le_ofDigitChars digits (10 * value + (c.toNat - '0'.toNat))
      constructor
      · rintro ⟨⟩
      · rintro ⟨-, rfl, hn⟩
        exact absurd (Nat.le_trans hle hn) hnext

theorem unsigned_cases (cs : List Char) : cs = unsigned cs ∨ cs = '+' :: unsigned cs := by
  unfold unsigned
  split
  · exact Or.inr rfl
  · exact Or.inl rfl

theorem unsigned_of_isDigit {digits : List Char} (h : ∀ c ∈ digits, c.isDigit = true) :
    unsigned digits = digits := by
  unfold unsigned
  split
  · exact absurd (h '+' List.mem_cons_self) (by decide)
  · rfl

/-- A text reads as a number exactly if it is a numeral of that value. -/
theorem word?_eq_some_iff {cs : List Char} {n : Nat} : word? cs = some n ↔ IsNumeral cs n := by
  constructor
  · intro h
    refine ⟨unsigned cs, unsigned_cases cs, ?_⟩
    rw [word?] at h
    split at h
    · cases h
    case h_2 hne => exact ⟨hne, (wordAfter?_eq_some_iff (Nat.zero_le maxWord)).mp h⟩
  · rintro ⟨digits, hcs, hne, hdigits, hvalue, hle⟩
    have hunsigned : unsigned cs = digits := by
      rcases hcs with rfl | rfl
      · exact unsigned_of_isDigit hdigits
      · rfl
    rw [word?, hunsigned]
    split
    · exact absurd rfl hne
    · exact (wordAfter?_eq_some_iff (Nat.zero_le maxWord)).mpr ⟨hdigits, hvalue, hle⟩

/-- The middle part is the text without the blanks at its ends. -/
def IsTrimmed (cs middle : List Char) : Prop :=
  ∃ before after, cs = before ++ middle ++ after ∧ (∀ c ∈ before, isBlank c = true) ∧
    (∀ c ∈ after, isBlank c = true) ∧ (∀ c, middle.head? = some c → isBlank c = false) ∧
    ∀ c, middle.getLast? = some c → isBlank c = false

private theorem dropWhile_of_head? {cs : List Char} (h : ∀ c, cs.head? = some c → isBlank c = false) :
    cs.dropWhile isBlank = cs := by
  cases cs with
  | nil => rfl
  | cons c cs => exact List.dropWhile_cons_of_neg (by simp [h c rfl])

private theorem isBlank_head?_dropWhile {cs : List Char} {c : Char}
    (h : (cs.dropWhile isBlank).head? = some c) : isBlank c = false := by
  have hnot := List.head?_dropWhile_not isBlank cs
  rwa [h] at hnot

theorem isTrimmed_trim (cs : List Char) : IsTrimmed cs (trim cs) := by
  have hfront : cs = cs.takeWhile isBlank ++ cs.dropWhile isBlank := List.takeWhile_append_dropWhile.symm
  have hback : cs.dropWhile isBlank =
      trim cs ++ ((cs.dropWhile isBlank).reverse.takeWhile isBlank).reverse := by
    rw [trim, ← List.reverse_append, List.takeWhile_append_dropWhile, List.reverse_reverse]
  refine ⟨cs.takeWhile isBlank, ((cs.dropWhile isBlank).reverse.takeWhile isBlank).reverse, ?_, ?_, ?_, ?_, ?_⟩
  · rw [List.append_assoc, ← hback, ← hfront]
  · intro c hc
    exact List.mem_takeWhile_imp hc
  · intro c hc
    exact List.mem_takeWhile_imp (List.mem_reverse.mp hc)
  · intro c hc
    have hhead : (cs.dropWhile isBlank).head? = some c := by
      rw [hback, List.head?_append, hc, Option.some_or]
    exact isBlank_head?_dropWhile hhead
  · intro c hc
    rw [trim, List.getLast?_reverse] at hc
    exact isBlank_head?_dropWhile hc

theorem trim_eq_iff {cs middle : List Char} : trim cs = middle ↔ IsTrimmed cs middle := by
  constructor
  · rintro rfl
    exact isTrimmed_trim cs
  · rintro ⟨before, after, rfl, hbefore, hafter, hhead, hlast⟩
    have hback : ∀ c ∈ after.reverse, isBlank c = true := fun c hc => hafter c (List.mem_reverse.mp hc)
    rw [trim, List.append_assoc, List.dropWhile_append_of_pos hbefore]
    cases middle with
    | nil => simp [List.dropWhile_eq_nil_iff.mpr hafter]
    | cons first rest =>
      have hfront : (first :: rest ++ after).dropWhile isBlank = first :: rest ++ after :=
        dropWhile_of_head? hhead
      rw [hfront, List.reverse_append, List.dropWhile_append_of_pos hback, dropWhile_of_head?, List.reverse_reverse]
      intro c hc
      exact hlast c (by rwa [List.head?_reverse] at hc)

end CommittedRegex.Text
