import CommittedRegex.Proofs.Expr.Language
import CommittedRegex.Proofs.Machine.Faithful
import CommittedRegex.Proofs.Text.Part

/-!
# What a match says about the language

An answer under any settings is the end of a word at the start of the text. An expression that is safe
to commit to matches exactly the words that it stands for.
-/
namespace CommittedRegex
open CommittedRegex.Expr Text

section Answer

variable {config : Config} {e : Expr} {input : String}

theorem committedEnd_of_findEnd {result : Option Nat} (h : config.findEnd e input = .ok result) :
    committedEnd input e 0 = result := by
  unfold Config.findEnd at h
  cases hanswer : evaluate config e input with
  | error error => simp [hanswer, Except.map] at h
  | ok answer =>
    rw [hanswer] at h
    obtain rfl : answer.1 = result := Except.ok.inj h
    exact (congrArg Prod.fst (eq_answer_of_evaluate hanswer)).symm

theorem exists_word_of_committedEnd_zero {stop : Nat} (h : committedEnd input e 0 = some stop) :
    ∃ word after, input = word ++ after ∧ word.utf8ByteSize = stop ∧ word.toList ∈ e.language := by
  have hinput : input.toList = [] ++ input.toList := rfl
  obtain ⟨word, hword, ⟨after, hafter⟩, rfl⟩ := exists_word_of_committedEnd hinput h
  refine ⟨String.ofList word, String.ofList after, ?_, rfl, by simpa using hword⟩
  rw [← String.toList_inj]
  simpa using hafter.symm

theorem mem_language_of_matches (h : e.matches input = true) : input.toList ∈ e.language := by
  obtain ⟨word, after, rfl, hsize, hword⟩ := exists_word_of_committedEnd_zero ((matches_iff e input).mp h)
  simpa [eq_empty_of_size_le (Nat.le_of_eq hsize.symm)] using hword

theorem matches_of_mem_language (safe : e.CommitmentSafe) (h : input.toList ∈ e.language) :
    e.matches input = true := by
  have hinput : input.toList = [] ++ input.toList := rfl
  have hend := committedEnd_of_longest safe hinput h List.prefix_rfl (longest_self _ _)
  rw [matches_iff]
  simpa using hend

end Answer

/-- Whatever the settings, a match ends on a character boundary after a word of the language, and a safe
expression matches exactly the words of its language. -/
theorem match_is_word (e : Expr) (input : String) :
    (∀ (config : Config) (stop : Nat), config.findEnd e input = .ok (some stop) →
      IsBoundary input stop ∧ ∃ word after, input = word ++ after ∧ word.utf8ByteSize = stop ∧
        word.toList ∈ e.language) ∧
    (e.CommitmentSafe → (e.matches input = true ↔ input.toList ∈ e.language)) := by
  constructor
  · intro config stop h
    obtain ⟨word, after, hinput, hsize, hword⟩ :=
      exists_word_of_committedEnd_zero (committedEnd_of_findEnd h)
    exact ⟨⟨word, after, hinput, hsize⟩, word, after, hinput, hsize, hword⟩
  · intro safe
    exact ⟨mem_language_of_matches, matches_of_mem_language safe⟩

private def marked : Expr :=
  .concat (.alternate (.literal "é") (.literal "ab")) (.star (.literal "ba"))

private theorem commitmentSafe_marked : marked.CommitmentSafe := by
  refine ⟨?_, ⟨?_, trivial, trivial⟩, ?_, trivial⟩
  · rintro x (rfl | rfl) y (rfl | rfl) h
    · rfl
    · simp at h
    · simp at h
    · rfl
  · rintro x rfl y rfl h
    simp at h
  · rintro x rfl y rfl _
    rfl

theorem marked_matches : marked.CommitmentSafe ∧ marked.matches "ébaba" = true := by
  refine ⟨commitmentSafe_marked, ((match_is_word marked _).2 commitmentSafe_marked).mpr ?_⟩
  have mark : "é".toList ∈ (alternate (literal "é") (literal "ab")).language :=
    Or.inl (mem_literal.mpr rfl)
  have pair : "ba".toList ∈ (literal "ba").language := mem_literal.mpr rfl
  have pairs : "ba".toList ++ ("ba".toList ++ []) ∈ (star (literal "ba")).language :=
    append_mem_star pair (append_mem_star pair (Language.nil_mem_kstar _))
  exact Language.append_mem_mul mark pairs

end CommittedRegex
