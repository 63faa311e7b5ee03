import CommittedRegex.Proofs.Characters
import CommittedRegex.Proofs.Machine.Relocation
import CommittedRegex.Proofs.Matching

/-! # Cutting a text for a concatenation

A concatenation goes on where its left operand ends, and from there it depends on the rest of the text
alone. The left operand, however, is evaluated on the whole text: a choice inside it may depend on
characters behind its end, and then it ends elsewhere in the text that is cut off there. An operand that
looks no further than its end, or that is safe to commit to, matches what it has taken. -/
namespace CommittedRegex
open CommittedRegex.Expr Text

namespace Expr

variable {a b e : Expr} {u v : String}

/-- The evaluation on the text comes to a place behind the given one, even if it goes back from there. -/
def LooksPast (e : Expr) (input : String) (place : Nat) : Prop :=
  ∃ n m, Moment.Runs .guard n (e.firstMoment input) m ∧ ∃ current ∈ m.work.place?, place < current

theorem firstMoment_relocate (e : Expr) (u v : String) :
    (e.firstMoment (u ++ v)).relocate id u = e.firstMoment u := by
  simp only [firstMoment, Moment.relocate, Machine.moment, Machine.new, WorkItem.relocate,
    Store.relocate_empty, id]

/-- A literal that would be found only in the longer text ends behind the place looked at. -/
theorem findsAlike_of_not_looksPast (h : ¬ e.LooksPast (u ++ v) u.utf8ByteSize) {n : Nat}
    {m : Moment (u ++ v)} (hruns : Moment.Runs .guard n (e.firstMoment (u ++ v)) m) :
    m.FindsAlike id u := by
  intro word start cont hw
  rw [Option.map_id_fun, id, id]
  apply stop?_of_le
  intro stop hstop
  by_contra hlt
  have hfound : (m.evaluate start cont (.literal word)).work.place? = some stop := hstop
  have hnext := hruns.trans (.single (Moment.step_eval hw))
  exact h ⟨_, _, hnext, stop, hfound, Nat.lt_of_not_le hlt⟩

/-- What the evaluation does not look at may be cut off. -/
theorem committedEnd_of_not_looksPast (h : ¬ e.LooksPast (u ++ v) u.utf8ByteSize) :
    committedEnd u e 0 = committedEnd (u ++ v) e 0 := by
  obtain ⟨n, last, hruns, hlast⟩ := exists_runs_to_answer e (u ++ v)
  obtain ⟨n', last', hruns', hlast'⟩ := exists_runs_to_answer e u
  -- The places stay where they are, only the text is another one.
  have hcut : Moment.Runs .guard n ((e.firstMoment (u ++ v)).relocate id u) (last.relocate id u) :=
    hruns.relocate Function.injective_id fun _ _ => findsAlike_of_not_looksPast h
  have hwork : (last.relocate id u).work = _ := Moment.work_relocate hlast
  rw [firstMoment_relocate] at hcut
  obtain ⟨-, rfl⟩ :=
    hcut.unique_halt (Moment.step_finished hwork) hruns' (Moment.step_finished hlast')
  rw [hlast', WorkItem.relocate, Option.map_id_fun, id] at hwork
  exact WorkItem.finished.inj hwork

/-- From the end of its left operand a concatenation is its right operand on the rest of the text. -/
theorem committedEnd_concat (ha : committedEnd (u ++ v) a 0 = some u.utf8ByteSize) :
    committedEnd (u ++ v) (concat a b) 0 = (committedEnd v b 0).map (u.utf8ByteSize + ·) := by
  rw [committedEnd, ha, Option.bind_some, committedEnd_behind]

theorem matches_concat (ha : committedEnd (u ++ v) a 0 = some u.utf8ByteSize) :
    (concat a b).matches (u ++ v) = true ↔ b.matches v = true := by
  rw [matches_iff, matches_iff, committedEnd_concat ha, String.utf8ByteSize_append,
    Option.map_eq_some_iff]
  constructor
  · rintro ⟨stop, hstop, hsize⟩
    rw [hstop, Nat.add_left_cancel hsize]
  · intro hb
    exact ⟨_, hb, rfl⟩

/-- What an operand has taken is a word of its language. -/
theorem mem_language_of_committedEnd (ha : committedEnd (u ++ v) a 0 = some u.utf8ByteSize) :
    u.toList ∈ a.language := by
  obtain ⟨word, after, hsplit, hsize, hword⟩ := exists_word_of_committedEnd_zero ha
  rwa [eq_of_append_eq hsplit hsize.symm]

/-- An operand matches what it has taken if it is safe to commit to or has looked no further. -/
theorem matches_of_committedEnd (ha : committedEnd (u ++ v) a 0 = some u.utf8ByteSize)
    (hword : u.toList ∈ a.language)
    (h : a.CommitmentSafe ∨ ¬ a.LooksPast (u ++ v) u.utf8ByteSize) : a.matches u = true := by
  rcases h with hsafe | hlooks
  · exact matches_of_mem_language hsafe hword
  · rw [matches_iff, committedEnd_of_not_looksPast hlooks, ha]

end Expr

/-- Behind the first part of a text a machine works as on the rest alone, with every end moved: it gives
the same answer or neither of the two runs ends. So a concatenation is its right operand on what its left
operand leaves. -/
theorem match_depends_on_rest :
    (∀ (u v : String) (e : Expr) (config : Config),
      let driven := (Machine.new (u ++ v) config).drive (.eval e u.utf8ByteSize .done)
      (driven.1.map fun stop => (stop, driven.2.stats)) =
          (evaluate config e v).map (fun answer =>
            (answer.1.map (u.utf8ByteSize + ·), answer.2)) ∧
        (evaluate config e v = .error .endless ↔ config = ⟨.faithful, none⟩ ∧
          (e.firstMoment v).Endless ∧ (e.momentBehind u v).Endless)) ∧
    ∀ (a b : Expr) (input : String),
      (({} : Config).findEnd a input = .ok none →
        ({} : Config).findEnd (.concat a b) input = .ok none) ∧
      ∀ stop, ({} : Config).findEnd a input = .ok (some stop) →
        ∃ u v, input = u ++ v ∧ u.utf8ByteSize = stop ∧
          ({} : Config).findEnd (.concat a b) input =
            (({} : Config).findEnd b v).map (Option.map (stop + ·)) := by
  constructor
  · intro u v e config
    exact ⟨drive_behind u v e config rfl, endless_behind_iff u v e config⟩
  · intro a b input
    constructor
    · intro ha
      rw [findEnd_default, Except.ok.injEq] at ha
      rw [findEnd_default, committedEnd, ha, Option.bind_none]
    · intro stop ha
      rw [findEnd_default, Except.ok.injEq] at ha
      obtain ⟨u, v, rfl, rfl, -⟩ := exists_word_of_committedEnd_zero ha
      refine ⟨u, v, rfl, rfl, ?_⟩
      rw [findEnd_default, findEnd_default, committedEnd_concat ha]
      rfl

/-- Behind the two bytes of the first letter the star takes the other two letters. -/
theorem accented_goes_on :
    ({} : Config).findEnd (.concat (.literal "é") (.star (.literal "b"))) "ébb" = .ok (some 4) ∧
      ({} : Config).findEnd (.concat (.literal "b") (.literal "é")) "ébb" = .ok none := by
  have hfound : ({} : Config).findEnd (.literal "é") "ébb" = .ok (some 2) := by
    rw [findEnd_default, committedEnd_zero]
    rfl
  have hnone : ({} : Config).findEnd (.literal "b") "ébb" = .ok none := by
    rw [findEnd_default, committedEnd_zero]
    rfl
  have hrest : ({} : Config).findEnd (.star (.literal "b")) "bb" = .ok (some 2) := by
    rw [findEnd_default, committedEnd_zero]
    simp [rest?, restOfRounds, List.dropPrefix?]
    rfl
  obtain ⟨u, v, hsplit, hsize, hend⟩ := (match_depends_on_rest.2 _ (.star (.literal "b")) _).2 2 hfound
  obtain rfl : "é" = u := eq_of_append_eq (show "é" ++ "bb" = u ++ v from hsplit) (hsize.symm ▸ rfl)
  obtain rfl : "bb" = v := by simpa [← String.toList_inj] using hsplit
  exact ⟨by rw [hend, hrest]; rfl, (match_depends_on_rest.2 _ _ _).1 hnone⟩

/-- A concatenation matches a text exactly if its right operand matches what is behind the end that the
left one comes to on the whole text. What the left operand has taken is then a word of its language, and
it matches that word alone if it is safe to commit to or has looked no further. -/
theorem matches_concat_iff (a b : Expr) (input : String) :
    ((Expr.concat a b).matches input = true ↔
      ∃ u v, input = u ++ v ∧ ({} : Config).findEnd a input = .ok (some u.utf8ByteSize) ∧
        b.matches v = true) ∧
    ∀ u v, input = u ++ v → ({} : Config).findEnd a input = .ok (some u.utf8ByteSize) →
      u.toList ∈ a.language ∧
        (a.CommitmentSafe ∨ ¬ a.LooksPast input u.utf8ByteSize → a.matches u = true) := by
  refine ⟨⟨fun h => ?_, ?_⟩, ?_⟩
  · obtain ⟨stop, ha, -⟩ := Option.bind_eq_some_iff.mp ((matches_iff _ _).mp h)
    obtain ⟨u, v, rfl, rfl, -⟩ := exists_word_of_committedEnd_zero ha
    refine ⟨u, v, rfl, ?_, (matches_concat ha).mp h⟩
    rw [findEnd_default, ha]
  · rintro ⟨u, v, rfl, ha, hb⟩
    rw [findEnd_default, Except.ok.injEq] at ha
    exact (matches_concat ha).mpr hb
  · rintro u v rfl ha
    rw [findEnd_default, Except.ok.injEq] at ha
    have hword := mem_language_of_committedEnd ha
    exact ⟨hword, matches_of_committedEnd ha hword⟩

theorem repeated_concat_splits :
    ∃ u v, "aab" = u ++ v ∧ (Expr.star (.literal "a")).matches u = true ∧
      (Expr.literal "b").matches v = true := by
  have safe : (Expr.star (.literal "a")).CommitmentSafe := by
    refine ⟨?_, trivial⟩
    rintro x rfl y rfl _
    rfl
  have hmatch : (Expr.concat (.star (.literal "a")) (.literal "b")).matches "aab" = true := by
    rw [matches_iff_rest?]
    simp [rest?, restOfRounds, List.dropPrefix?]
  obtain ⟨hsplits, htaken⟩ := matches_concat_iff (.star (.literal "a")) (.literal "b") "aab"
  obtain ⟨u, v, hinput, hend, hv⟩ := hsplits.mp hmatch
  exact ⟨u, v, hinput, (htaken u v hinput hend).2 (Or.inl safe), hv⟩

/-- On a text that begins with "abc" the first alternative fails, and on "ab" alone it takes the "a". -/
private def lookahead : Expr :=
  .alternate (.concat (.alternate (.literal "abc") (.literal "")) (.literal "a")) (.literal "ab")

/-- The left operand takes "ab" of "abc", but it does not match "ab". -/
theorem lookahead_concat_without_split :
    (Expr.concat lookahead (.literal "c")).matches "abc" = true ∧
      ¬ ∃ u v, "abc" = u ++ v ∧ lookahead.matches u = true ∧
        (Expr.literal "c").matches v = true := by
  constructor
  · rw [matches_iff_rest?]
    simp [lookahead, rest?, List.dropPrefix?]
  · rintro ⟨u, v, hsplit, hu, hv⟩
    rw [matches_iff_rest?, rest?, dropPrefix?_eq_some, List.append_nil] at hv
    have hlist : "ab".toList ++ "c".toList = u.toList ++ v.toList := by
      rw [← @String.toList_append u v, ← hsplit]
      rfl
    rw [hv, List.append_cancel_right_eq] at hlist
    rw [matches_iff_rest?, ← hlist] at hu
    simp [lookahead, rest?, List.dropPrefix?] at hu

end CommittedRegex
