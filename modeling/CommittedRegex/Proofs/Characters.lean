import CommittedRegex.Proofs.Machine.Places
import Mathlib.Data.List.Basic

/-! # Matching by characters

Committed matching on a list of characters: a matcher takes the rest of a text and gives what it leaves
of it, and no offsets occur. Matching at byte offsets comes to the same: an expression ends where the
characters that it leaves begin. So an end lies on a character boundary, and a literal never stands
across a part of a character. -/
namespace CommittedRegex
open CommittedRegex.Expr Text

/-- What the rounds of a body leave of a text. A round that leaves no less than it was given is the last
one. -/
def restOfRounds (body : List Char → Option (List Char)) (text : List Char) : List Char :=
  match body text with
  | none => text
  | some rest => if rest.length < text.length then restOfRounds body rest else rest
termination_by text.length

/-- What the expression leaves of a text that it matches the beginning of. -/
def Expr.rest? : Expr → List Char → Option (List Char)
  | empty, _ => none
  | literal word, text => text.dropPrefix? word.toList
  | concat a b, text => (a.rest? text).bind b.rest?
  | alternate a b, text => (a.rest? text).or (b.rest? text)
  | star a, text => some (restOfRounds a.rest? text)

theorem restOfRounds_suffix {body : List Char → Option (List Char)}
    (h : ∀ text rest, body text = some rest → rest <:+ text) (text : List Char) :
    restOfRounds body text <:+ text := by
  fun_induction restOfRounds body text with
  | case1 text => exact List.suffix_rfl
  | case2 text rest hbody _ ih => exact ih.trans (h text rest hbody)
  | case3 text rest hbody => exact h text rest hbody

section Rest

variable {input : String} {e : Expr} {before text rest : List Char}

theorem Text.dropPrefix?_eq_some {word : List Char} :
    text.dropPrefix? word = some rest ↔ text = word ++ rest := by
  simp [List.dropPrefix?_eq_some_iff]

theorem Text.size_sub_width (h : input.toList = before ++ rest) :
    input.utf8ByteSize - width rest = width before := by
  rw [← width_toList, h, width_append, Nat.add_sub_cancel]

namespace Expr

theorem rest?_suffix (h : e.rest? text = some rest) : rest <:+ text := by
  induction e generalizing text rest with
  | empty => cases h
  | literal word => exact ⟨word.toList, (dropPrefix?_eq_some.mp h).symm⟩
  | concat a b iha ihb =>
    obtain ⟨middle, ha, hb⟩ := Option.bind_eq_some_iff.mp h
    exact (ihb hb).trans (iha ha)
  | alternate a b iha ihb =>
    rcases Option.or_eq_some_iff.mp h with ha | ⟨-, hb⟩
    · exact iha ha
    · exact ihb hb
  | star a iha =>
    obtain rfl := Option.some.inj h
    exact restOfRounds_suffix (fun _ _ => iha) text

/-- Where characters are left an expression ends at the offset that they begin at. -/
theorem committedEnd_eq_rest? (h : input.toList = before ++ text) :
    committedEnd input e (width before) =
      (e.rest? text).map fun rest => input.utf8ByteSize - width rest := by
  induction e generalizing before text with
  | empty => rfl
  | literal word =>
    apply Option.ext
    intro stop
    rw [committedEnd, stop?_width_iff h, Option.map_eq_some_iff]
    constructor
    · rintro ⟨⟨rest, rfl⟩, rfl⟩
      rw [← List.append_assoc] at h
      exact ⟨rest, dropPrefix?_eq_some.mpr rfl, size_sub_width h⟩
    · rintro ⟨rest, hrest, rfl⟩
      obtain rfl := dropPrefix?_eq_some.mp hrest
      rw [← List.append_assoc] at h
      exact ⟨List.prefix_append _ _, size_sub_width h⟩
  | concat a b iha ihb =>
    rw [committedEnd, rest?, iha h]
    cases ha : a.rest? text with
    | none => rfl
    | some rest =>
      obtain ⟨word, rfl⟩ := rest?_suffix ha
      rw [← List.append_assoc] at h
      simp only [Option.map_some, Option.bind_some]
      rw [size_sub_width h, ihb h]
  | alternate a b iha ihb =>
    simp only [committedEnd, rest?, iha h, ihb h]
    cases a.rest? text <;> rfl
  | star a iha =>
    simp only [rest?, Option.map_some]
    -- A round moves exactly if it leaves less, so both matchers go through the same rounds.
    fun_induction restOfRounds a.rest? text generalizing before with
    | case1 text hbody =>
      rw [size_sub_width h]
      apply committedEnd_star_of_stop
      intro stop hstop
      rw [iha h, hbody] at hstop
      cases hstop
    | case2 text rest hbody hlt ih =>
      obtain ⟨word, rfl⟩ := rest?_suffix hbody
      have hmove : width (before ++ word) ≠ width before := by
        have hword : word ≠ [] := by
          rintro rfl
          exact Nat.lt_irrefl _ hlt
        have := width_pos hword
        rw [width_append]
        omega
      have hend := iha h
      rw [← List.append_assoc] at h
      rw [hbody, Option.map_some, size_sub_width h] at hend
      rw [committedEnd_star_of_advance hend hmove, ih h]
    | case3 text rest hbody hge =>
      obtain rfl := (rest?_suffix hbody).eq_of_length_le (Nat.le_of_not_lt hge)
      rw [size_sub_width h]
      apply committedEnd_star_of_stop
      intro stop hstop
      rw [iha h, hbody, Option.map_some, size_sub_width h] at hstop
      exact (Option.some.inj hstop).symm

theorem committedEnd_zero : committedEnd input e 0 =
    (e.rest? input.toList).map fun rest => input.utf8ByteSize - width rest :=
  committedEnd_eq_rest? (List.nil_append _).symm

theorem matches_iff_rest? : e.matches input = true ↔ e.rest? input.toList = some [] := by
  rw [matches_iff, committedEnd_zero, Option.map_eq_some_iff]
  constructor
  · rintro ⟨rest, hrest, hsize⟩
    obtain ⟨word, hword⟩ := rest?_suffix hrest
    have hwidth : input.utf8ByteSize = width word + width rest := by
      rw [← width_append, hword, width_toList]
    have hnil : width rest = 0 := by omega
    rw [hrest, width_eq_zero_iff.mp hnil]
  · intro hrest
    exact ⟨[], hrest, rfl⟩

end Expr

end Rest

/-- A literal at hand is found exactly if its characters are the next ones. -/
theorem Moment.exists_step_literal_iff {input : String} {m : Moment input} {word : String} {start : Nat}
    {cont : ContId} (policy : ZeroWidth) (hw : m.work = .eval (.literal word) start cont) :
    ∃ next result, m.step policy = .ok next ∧ next.work = .resume result cont ∧
      ∀ stop, result = some stop ↔ ∃ before after,
        input.toList = before ++ (word.toList ++ after) ∧ start = width before ∧
          stop = width (before ++ word.toList) := by
  refine ⟨_, stop? word input start, step_eval hw, rfl, fun stop => ?_⟩
  constructor
  · intro h
    obtain ⟨before, after, rfl, rfl, rfl⟩ := stop?_eq_some_iff.mp h
    exact ⟨before.toList, after.toList, by simp, by simp, by simp⟩
  · rintro ⟨before, after, hinput, rfl, rfl⟩
    exact (stop?_width_iff hinput).mpr ⟨List.prefix_append _ _, rfl⟩

/-- Matching at byte offsets is matching of characters: a match ends where the characters that are left
begin, and it is whole if none are left. Every place that a run comes to lies between two characters, and
a literal is found exactly if its characters are the next ones. -/
theorem offsets_follow_characters (e : Expr) (input : String) :
    (∀ stop, ({} : Config).findEnd e input = .ok (some stop) ↔
      ∃ rest, e.rest? input.toList = some rest ∧ input.utf8ByteSize - width rest = stop) ∧
    (({} : Config).findEnd e input = .ok none ↔ e.rest? input.toList = none) ∧
    (∀ stop, ({} : Config).findEnd e input = .ok (some stop) → IsBoundary input stop) ∧
    (({} : Config).isMatch e input = .ok true ↔ e.rest? input.toList = some []) ∧
    (∀ policy n m, Moment.Runs policy n (e.firstMoment input) m → m.KeepsTo (IsBoundary input)) ∧
    ∀ policy (m : Moment input) word start cont, m.work = .eval (.literal word) start cont →
      ∃ next result, m.step policy = .ok next ∧ next.work = .resume result cont ∧
        ∀ stop, result = some stop ↔ ∃ before after,
          input.toList = before ++ (word.toList ++ after) ∧ start = width before ∧
            stop = width (before ++ word.toList) := by
  have begins : IsBoundary input 0 := ⟨"", input, String.empty_append.symm, rfl⟩
  refine ⟨?_, ?_, ?_, ?_, ?_, fun policy m word start cont => Moment.exists_step_literal_iff policy⟩
  · intro stop
    rw [findEnd_default, committedEnd_zero, Except.ok.injEq, Option.map_eq_some_iff]
  · rw [findEnd_default, committedEnd_zero, Except.ok.injEq, Option.map_eq_none_iff]
  · intro stop h
    rw [findEnd_default, Except.ok.injEq] at h
    exact isBoundary_of_committedEnd begins h
  · rw [← matches_iff_rest?, matches_iff, isMatch_default, Except.ok.injEq, beq_iff_eq]
  · intro policy n m hruns
    have first : (e.firstMoment input).KeepsTo (IsBoundary input) := by
      refine ⟨?_, Store.keepsTo_empty⟩
      rintro place ⟨⟩
      exact begins
    exact first.of_runs (fun _ => id) hruns

/-- Both letters begin with the same byte. -/
private def accented : Expr := .concat (.star (.literal "é")) (.literal "è")

theorem accented_leaves_one :
    ({} : Config).findEnd accented "éèa" = .ok (some 4) ∧
      (∃ m, Moment.Runs .guard 1 (accented.firstMoment "éèa") m ∧ m.KeepsTo (IsBoundary "éèa")) ∧
      ∃ next, ((literal "è").firstMoment "éèa").step .guard = .ok next ∧
        next.work = .resume none .done := by
  obtain ⟨hfind, -, -, -, hkeeps, hliteral⟩ := offsets_follow_characters accented "éèa"
  refine ⟨(hfind 4).mpr ⟨['a'], ?_, rfl⟩, ?_, ?_⟩
  · simp [accented, rest?, restOfRounds, List.dropPrefix?]
  · have hruns : Moment.Runs .guard 1 (accented.firstMoment "éèa") _ := .single (Moment.step_eval rfl)
    exact ⟨_, hruns, hkeeps .guard 1 _ hruns⟩
  · obtain ⟨next, result, hstep, hwork, hstop⟩ :=
      hliteral .guard ((literal "è").firstMoment "éèa") "è" 0 .done rfl
    refine ⟨next, hstep, ?_⟩
    cases result with
    | none => exact hwork
    | some stop =>
      obtain ⟨before, after, hinput, hstart, -⟩ := (hstop stop).mp rfl
      rw [width_eq_zero_iff.mp hstart.symm] at hinput
      simp at hinput

end CommittedRegex
