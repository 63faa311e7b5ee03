import CommittedRegex.Text.Basic
import CommittedRegex.Text.Quoted
import Mathlib.Data.List.Basic
import Mathlib.Tactic.SplitIfs

/-! # The lines of a text

Lines are what remains of a text when the ends of its lines are taken away. Reading finds exactly them,
so lines that were written one by one, each with a line feed behind it, are read back as they were. A
quoted text never goes over the end of a line, whatever it quotes. -/
namespace CommittedRegex.Text

/-- The text consists of these lines. Only the last one may lack its end, and then it is not empty. -/
inductive HasLines : List Char → List String → Prop
  | none : HasLines [] []
  | unended {line : List Char} (hne : line ≠ []) (hline : '\n' ∉ line) :
      HasLines line [String.ofList line]
  | ended {line rest : List Char} {ls : List String} (hline : '\n' ∉ line)
      (hreturn : line.getLast? ≠ some '\r') (hrest : HasLines rest ls) :
      HasLines (line ++ '\n' :: rest) (String.ofList line :: ls)
  | endedByReturn {line rest : List Char} {ls : List String} (hline : '\n' ∉ line)
      (hrest : HasLines rest ls) : HasLines (line ++ '\r' :: '\n' :: rest) (String.ofList line :: ls)

section

variable {line taken rest cs : List Char} {before ls : List String}

private theorem linesOnto_cons_of_ne {c : Char} (h : c ≠ '\n') :
    linesOnto before taken (c :: cs) = linesOnto before (c :: taken) cs := by
  rw [linesOnto]
  exact h

private theorem linesOnto_append (h : '\n' ∉ line) :
    linesOnto before taken (line ++ rest) = linesOnto before (line.reverse ++ taken) rest := by
  induction line generalizing taken with
  | nil => rfl
  | cons c line ih =>
    rw [List.mem_cons, not_or] at h
    rw [List.cons_append, linesOnto_cons_of_ne (Ne.symm h.1), ih h.2]
    simp

private theorem linesOnto_ended (h : '\n' ∉ line) :
    linesOnto before [] (line ++ '\n' :: rest) = linesOnto (endedLine line.reverse :: before) [] rest := by
  rw [linesOnto_append h, List.append_nil, linesOnto]

private theorem endedLine_of_getLast? (h : line.getLast? ≠ some '\r') :
    endedLine line.reverse = String.ofList line := by
  rw [endedLine, List.reverse_reverse]
  intro taken htaken
  apply h
  rw [← List.head?_reverse, htaken, List.head?_cons]

private theorem linesOnto_of_hasLines (h : HasLines cs ls) :
    linesOnto before [] cs = ls.reverse ++ before := by
  induction h generalizing before with
  | none => rfl
  | @unended line hne hline =>
    rw [← List.append_nil line, linesOnto_append hline, linesOnto]
    simp [hne]
  | ended hline hreturn _ ih =>
    rw [linesOnto_ended hline, ih, endedLine_of_getLast? hreturn]
    simp
  | @endedByReturn line rest _ hline _ ih =>
    have hreturn : '\n' ∉ line ++ ['\r'] := by simpa using hline
    have hsplit : line ++ '\r' :: '\n' :: rest = line ++ ['\r'] ++ '\n' :: rest := by simp
    rw [hsplit, linesOnto_ended hreturn, ih, List.reverse_append]
    simp [endedLine]

theorem exists_hasLines (cs : List Char) : ∃ ls, HasLines cs ls := by
  induction hlength : cs.length using Nat.strongRecOn generalizing cs with
  | _ length ih =>
    by_cases hfeed : '\n' ∈ cs
    · obtain ⟨line, rest, rfl, hline⟩ := List.eq_append_cons_of_mem hfeed
      have hshort : rest.length < length := by
        rw [← hlength, List.length_append, List.length_cons]
        omega
      obtain ⟨ls, hls⟩ := ih rest.length hshort rest rfl
      by_cases hreturn : line.getLast? = some '\r'
      · obtain ⟨init, rfl⟩ := List.getLast?_eq_some_iff.mp hreturn
        rw [List.append_assoc]
        exact ⟨_, .endedByReturn (fun h => hline (List.mem_append_left _ h)) hls⟩
      · exact ⟨_, .ended hline hreturn hls⟩
    · by_cases hnil : cs = []
      · exact ⟨[], hnil ▸ .none⟩
      · exact ⟨_, .unended hnil hfeed⟩

end

theorem lines_eq_iff {text : String} {ls : List String} : lines text = ls ↔ HasLines text.toList ls := by
  have found {ls : List String} (h : HasLines text.toList ls) : lines text = ls := by
    rw [lines, linesOnto_of_hasLines h, List.append_nil, List.reverse_reverse]
  constructor
  · rintro rfl
    obtain ⟨ls, hls⟩ := exists_hasLines text.toList
    exact (found hls).symm ▸ hls
  · exact found

theorem lines_eq_nil_iff {text : String} : lines text = [] ↔ text = "" := by
  have hnil {cs : List Char} (h : HasLines cs []) : cs = [] := by
    cases h with
    | none => rfl
  rw [lines_eq_iff, ← String.toList_eq_nil_iff]
  exact ⟨hnil, fun h => h ▸ .none⟩

/-! ## Lines that were written -/

/-- The line is read as it was written. -/
def IsLine (line : String) : Prop := '\n' ∉ line.toList ∧ line.toList.getLast? ≠ some '\r'

instance : DecidablePred IsLine := fun _ => inferInstanceAs (Decidable (_ ∧ _))

theorem isLine_append {start stop : String} (hstart : '\n' ∉ start.toList) (hstop : IsLine stop)
    (hne : stop ≠ "") : IsLine (start ++ stop) := by
  constructor
  · rw [String.toList_append, List.mem_append, not_or]
    exact ⟨hstart, hstop.1⟩
  · rw [String.toList_append, List.getLast?_append_of_ne_nil _ (by simpa using hne)]
    exact hstop.2

theorem lines_join {ls : List String} (h : ∀ line ∈ ls, IsLine line) :
    lines (String.join (ls.map (· ++ "\n"))) = ls := by
  rw [lines_eq_iff]
  induction ls with
  | nil => exact .none
  | cons line ls ih =>
    obtain ⟨hfeed, hreturn⟩ := h line List.mem_cons_self
    have hrest := ih fun other hother => h other (List.mem_cons_of_mem line hother)
    simpa [String.join_cons] using HasLines.ended hfeed hreturn hrest

private theorem digitChar_ne {digit : Nat} (h : digit < 16) : digit.digitChar ≠ '\n' := by
  have table : ∀ d : Fin 16, d.val.digitChar ≠ '\n' := by decide
  exact table ⟨digit, h⟩

theorem not_mem_toDigits {base : Nat} (hbase : 1 < base) (hle : base ≤ 16) (n : Nat) :
    '\n' ∉ Nat.toDigits base n := by
  induction n using Nat.strongRecOn with
  | _ n ih =>
    rw [Nat.toDigits_eq_if hbase]
    split
    · rename_i hlt
      rw [List.mem_singleton]
      exact (digitChar_ne (by omega)).symm
    · rename_i hge
      have hless : n / base < n := Nat.div_lt_self (by omega) hbase
      have hdigit : n % base < base := Nat.mod_lt n (by omega)
      rw [List.mem_append, List.mem_singleton, not_or]
      exact ⟨ih _ hless, (digitChar_ne (by omega)).symm⟩

theorem not_mem_escape (visible : Char → Bool) (c : Char) : '\n' ∉ escape visible c := by
  by_cases hfeed : c = '\n'
  · subst hfeed
    simp [escape]
  · have hdigits : '\n' ∉ hexDigits c.toNat := not_mem_toDigits (by decide) (by decide) _
    unfold escape
    split_ifs <;> simp [hdigits, Ne.symm hfeed]

theorem not_mem_quoted (text : String) : '\n' ∉ (quoted text).toList := by
  simp [quotedChars, not_mem_escape]

theorem isLine_quoted (text : String) : IsLine (quoted text) := by
  refine ⟨not_mem_quoted text, ?_⟩
  rw [toList_quoted, quotedChars, List.getLast?_concat]
  decide

end CommittedRegex.Text
