import CommittedRegex.Expr.Committed
import Mathlib.Computability.Language

/-!
# The language of an expression

The words that an expression stands for, with the star of a language for a star. A committed end is
always the end of a word. The converse needs care, since a choice is never taken back: if no word of an
operand that is followed by something else begins another one, and no word of a first alternative begins
a word of the second, then the committed end is the end of the longest word that begins the rest.
-/
namespace CommittedRegex
open scoped Computability

namespace Text

def width (word : List Char) : Nat := (String.ofList word).utf8ByteSize

@[simp] theorem width_nil : width [] = 0 := rfl

@[simp] theorem width_append (a b : List Char) : width (a ++ b) = width a + width b := by
  simp [width]

@[simp] theorem width_toList (text : String) : width text.toList = text.utf8ByteSize := by
  simp [width]

theorem width_eq_zero_iff {word : List Char} : width word = 0 ↔ word = [] := by
  simp [width]

theorem width_pos {word : List Char} (h : word ≠ []) : 0 < width word := by
  have := mt width_eq_zero_iff.mp h
  omega

private theorem eq_of_prefix_of_width {a b : List Char} (h : a <+: b) (hwidth : width a = width b) :
    a = b := by
  obtain ⟨rest, rfl⟩ := h
  have hrest : width rest = 0 := by
    rw [width_append] at hwidth
    omega
  rw [width_eq_zero_iff.mp hrest, List.append_nil]

theorem eq_of_width {text a b : List Char} (ha : a <+: text) (hb : b <+: text)
    (hwidth : width a = width b) : a = b := by
  rcases List.prefix_or_prefix_of_prefix ha hb with h | h
  · exact eq_of_prefix_of_width h hwidth
  · exact (eq_of_prefix_of_width h hwidth.symm).symm

variable {input : String} {before rest : List Char}

/-- A word is found exactly if the rest of the text begins with it. -/
theorem stop?_width_iff {word : String} {stop : Nat} (h : input.toList = before ++ rest) :
    stop? word input (width before) = some stop ↔
      word.toList <+: rest ∧ stop = width (before ++ word.toList) := by
  rw [stop?_eq_some_iff]
  constructor
  · rintro ⟨first, after, rfl, hfirst, rfl⟩
    rw [String.toList_append, String.toList_append] at h
    have same : first.toList = before := by
      apply eq_of_width ⟨_, h⟩ (List.prefix_append _ _)
      rw [width_toList, hfirst]
    rw [same, List.append_cancel_left_eq] at h
    exact ⟨⟨_, h⟩, by simp⟩
  · rintro ⟨⟨after, rfl⟩, rfl⟩
    refine ⟨String.ofList before, String.ofList after, ?_, rfl, by simp⟩
    rw [← String.toList_inj]
    simpa using h

end Text

open Text

/-- A word of the first language that begins a word of the second one is that word. -/
def Unextended (first second : Language Char) : Prop :=
  ∀ x ∈ first, ∀ y ∈ second, x <+: y → x = y

/-- No word is a proper beginning of another one. -/
def PrefixFree (words : Language Char) : Prop := Unextended words words

theorem append_mem_star {words : Language Char} {x y : List Char} (hx : x ∈ words)
    (hy : y ∈ words∗) : x ++ y ∈ words∗ := by
  have round : words * words∗ ≤ words∗ := mul_kstar_le_kstar
  exact round (Language.append_mem_mul hx hy)

namespace Expr

def language : Expr → Language Char
  | empty => 0
  | literal text => ({text.toList} : Set (List Char))
  | concat a b => a.language * b.language
  | alternate a b => a.language + b.language
  | star a => a.language∗

/-- What is committed to is never a beginning of something else that would have been possible. -/
def CommitmentSafe : Expr → Prop
  | empty => True
  | literal _ => True
  | concat a b => PrefixFree a.language ∧ a.CommitmentSafe ∧ b.CommitmentSafe
  | alternate a b => Unextended a.language b.language ∧ a.CommitmentSafe ∧ b.CommitmentSafe
  | star a => PrefixFree a.language ∧ a.CommitmentSafe

theorem mem_literal {text : String} {word : List Char} :
    word ∈ (literal text).language ↔ word = text.toList := Iff.rfl

variable {input : String} {e : Expr} {before rest : List Char}

/-- A committed end is the end of a word. -/
theorem exists_word_of_committedEnd {stop : Nat} (hinput : input.toList = before ++ rest)
    (h : committedEnd input e (width before) = some stop) :
    ∃ word ∈ e.language, word <+: rest ∧ stop = width (before ++ word) := by
  induction e generalizing before rest stop with
  | empty => simp [committedEnd] at h
  | literal text =>
    obtain ⟨hword, hstop⟩ := (stop?_width_iff hinput).mp h
    exact ⟨text.toList, rfl, hword, hstop⟩
  | concat a b iha ihb =>
    simp only [committedEnd, Option.bind_eq_some_iff] at h
    obtain ⟨middle, ha, hb⟩ := h
    obtain ⟨x, hx, ⟨rest, rfl⟩, rfl⟩ := iha hinput ha
    rw [← List.append_assoc] at hinput
    obtain ⟨y, hy, ⟨rest, rfl⟩, rfl⟩ := ihb hinput hb
    refine ⟨x ++ y, Language.append_mem_mul hx hy, ⟨rest, ?_⟩, ?_⟩
    · rw [List.append_assoc]
    · rw [List.append_assoc]
  | alternate a b iha ihb =>
    simp only [committedEnd] at h
    split at h
    · rename_i ha
      obtain ⟨word, hword, hrest⟩ := iha hinput (ha.trans h)
      exact ⟨word, Or.inl hword, hrest⟩
    · obtain ⟨word, hword, hrest⟩ := ihb hinput h
      exact ⟨word, Or.inr hword, hrest⟩
  | star a iha =>
    induction hstart : width before using rounds_induction generalizing before rest with
    | last start hlast =>
      subst hstart
      rw [committedEnd_star_of_stop hlast, Option.some.injEq] at h
      refine ⟨[], Language.nil_mem_kstar _, List.nil_prefix, ?_⟩
      rw [List.append_nil, h]
    | more start middle hbody hlt _ ih =>
      subst hstart
      have hne : middle ≠ width before := by omega
      rw [committedEnd_star_of_advance hbody hne] at h
      obtain ⟨x, hx, ⟨rest, rfl⟩, rfl⟩ := iha hinput hbody
      rw [← List.append_assoc] at hinput
      obtain ⟨y, hy, ⟨rest, rfl⟩, rfl⟩ := ih hinput h rfl
      refine ⟨x ++ y, append_mem_star hx hy, ⟨rest, ?_⟩, ?_⟩
      · rw [List.append_assoc]
      · rw [List.append_assoc]

end Expr

/-- No longer word of the language begins the text. -/
def Longest (words : Language Char) (word text : List Char) : Prop :=
  ∀ x ∈ words, x <+: text → x <+: word

theorem longest_self (words : Language Char) (word : List Char) : Longest words word word :=
  fun _ _ h => h

theorem PrefixFree.longest {words : Language Char} {word : List Char} (h : PrefixFree words)
    (hword : word ∈ words) (after : List Char) : Longest words word (word ++ after) := by
  intro x hx hbegins
  rcases List.prefix_or_prefix_of_prefix hbegins (List.prefix_append word after) with hle | hle
  · exact hle
  · rw [h word hword x hx hle]

/-- What is left of the longest word after its first part is the longest of what may follow. -/
theorem Longest.tail {words others : Language Char} {x y after : List Char}
    (h : Longest words (x ++ y) (x ++ (y ++ after)))
    (happend : ∀ z ∈ others, x ++ z ∈ words) : Longest others y (y ++ after) := by
  intro z hz hbegins
  have hle := h (x ++ z) (happend z hz) ((List.prefix_append_right_inj x).mpr hbegins)
  exact (List.prefix_append_right_inj x).mp hle

namespace Expr

variable {input : String} {e a : Expr} {before rest word : List Char}

/-- If only the empty word of a star begins the rest, then the star ends where it starts. -/
private theorem committedEnd_star_of_longest_nil (hinput : input.toList = before ++ rest)
    (hmax : Longest (star a).language [] rest) :
    committedEnd input (star a) (width before) = some (width before) := by
  apply committedEnd_star_of_stop
  intro stop hbody
  obtain ⟨x, hx, hbegins, rfl⟩ := exists_word_of_committedEnd hinput hbody
  have hstar : x ++ [] ∈ (star a).language := append_mem_star hx (Language.nil_mem_kstar _)
  rw [List.append_nil] at hstar
  have hnil : x = [] := List.prefix_nil.mp (hmax x hstar hbegins)
  rw [hnil, List.append_nil]

/-- The committed end of a safe expression is the end of the longest word that begins the rest. -/
theorem committedEnd_of_longest (safe : e.CommitmentSafe) (hinput : input.toList = before ++ rest)
    (hword : word ∈ e.language) (hbegins : word <+: rest) (hmax : Longest e.language word rest) :
    committedEnd input e (width before) = some (width (before ++ word)) := by
  induction e generalizing before rest word with
  | empty => exact absurd hword (Language.notMem_zero word)
  | literal text =>
    obtain rfl := mem_literal.mp hword
    exact (stop?_width_iff hinput).mpr ⟨hbegins, rfl⟩
  | concat a b iha ihb =>
    obtain ⟨free, safea, safeb⟩ := safe
    obtain ⟨x, hx, y, hy, rfl⟩ := Language.mem_mul.mp hword
    obtain ⟨after, rfl⟩ := hbegins
    rw [List.append_assoc] at hinput hmax
    have ha := iha safea hinput hx (List.prefix_append _ _) (free.longest hx _)
    rw [← List.append_assoc] at hinput
    have hrest := hmax.tail fun z hz => Language.append_mem_mul hx hz
    have hb := ihb safeb hinput hy (List.prefix_append _ _) hrest
    rw [committedEnd, ha, Option.bind_some, hb, List.append_assoc]
  | alternate a b iha ihb =>
    obtain ⟨free, safea, safeb⟩ := safe
    have hfirst (h : word ∈ a.language) := iha safea hinput h hbegins fun x hx => hmax x (Or.inl hx)
    simp only [committedEnd]
    cases ha : committedEnd input a (width before) with
    | some stop =>
      rcases hword with hword | hword
      · exact ha.symm.trans (hfirst hword)
      -- The second alternative has the longest word, and the first one has found a word of its own.
      · obtain ⟨x, hx, hxrest, rfl⟩ := exists_word_of_committedEnd hinput ha
        rw [free x hx word hword (hmax x (Or.inl hx) hxrest)]
    | none =>
      rcases hword with hword | hword
      · exact absurd (ha.symm.trans (hfirst hword)) (by simp)
      · exact ihb safeb hinput hword hbegins fun x hx => hmax x (Or.inr hx)
  | star a iha =>
    obtain ⟨free, safea⟩ := safe
    obtain ⟨words, rfl, hwords⟩ := Language.mem_kstar_iff_exists_nonempty.mp hword
    clear hword
    induction words generalizing before rest with
    | nil => rw [List.flatten_nil, List.append_nil, committedEnd_star_of_longest_nil hinput hmax]
    | cons x words ih =>
      obtain ⟨hx, hne⟩ := hwords x List.mem_cons_self
      have htail : ∀ y ∈ words, y ∈ a.language ∧ y ≠ [] :=
        fun y hy => hwords y (List.mem_cons_of_mem x hy)
      obtain ⟨after, rfl⟩ := hbegins
      rw [List.flatten_cons, List.append_assoc] at hinput hmax
      have hbody := iha safea hinput hx (List.prefix_append _ _) (free.longest hx _)
      have hmove : width (before ++ x) ≠ width before := by
        have := width_pos hne
        rw [width_append]
        omega
      rw [← List.append_assoc] at hinput
      have hrest := hmax.tail fun z hz => append_mem_star hx hz
      rw [committedEnd_star_of_advance hbody hmove,
        ih hinput htail (List.prefix_append _ _) hrest, List.flatten_cons, List.append_assoc]

end Expr

end CommittedRegex
