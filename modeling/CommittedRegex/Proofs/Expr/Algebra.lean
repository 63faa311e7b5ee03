import CommittedRegex.Proofs.Machine.Places

/-! # The algebra of committed expressions

Two expressions end alike if the machine finds the same end for both, on every input and from every place
of it. Which laws of regular expressions hold of this depends on commitment: a choice may be multiplied
out from the left, but not from the right. An expression may be replaced by one that ends alike wherever
it occurs, also in the body of a star, where each round starts elsewhere. -/
namespace CommittedRegex.Expr
open Text

/-- The machine gives the same end for both expressions, wherever in an input they start. -/
def EndsAlike (a b : Expr) : Prop :=
  ∀ (input : String) (start : Nat), IsBoundary input start →
    ((Machine.new input {}).drive (.eval a start .done)).1 =
      ((Machine.new input {}).drive (.eval b start .done)).1

variable {a b c : Expr}

theorem endsAlike_iff : EndsAlike a b ↔ ∀ input start, IsBoundary input start →
    committedEnd input a start = committedEnd input b start := by
  simp only [EndsAlike, drive_new, Except.ok.injEq]

theorem endsAlike_of_committedEnd
    (h : ∀ input start, committedEnd input a start = committedEnd input b start) : EndsAlike a b :=
  endsAlike_iff.mpr fun input start _ => h input start

theorem equivalence_endsAlike : Equivalence EndsAlike where
  refl _ _ _ _ := rfl
  symm h input start hstart := (h input start hstart).symm
  trans h h' input start hstart := (h input start hstart).trans (h' input start hstart)

/-! ## Laws -/

section Ends

variable {input : String} {start stop : Nat}

/-- Where a star has come to an end it goes no further. -/
theorem committedEnd_star_at_end (h : committedEnd input (star a) start = some stop) :
    committedEnd input (star a) stop = some stop := by
  induction start using rounds_induction with
  | last start hlast =>
    have hstay := committedEnd_star_of_stop hlast
    obtain rfl : start = stop := Option.some.inj (hstay.symm.trans h)
    exact hstay
  | more start next hbody hlt _ ih =>
    apply ih
    rw [← h, committedEnd_star_of_advance hbody (by omega)]

theorem exists_committedEnd_star (input : String) (a : Expr) (start : Nat) :
    ∃ stop, committedEnd input (star a) start = some stop := ⟨_, rfl⟩

theorem committedEnd_blank (h : IsBoundary input start) :
    committedEnd input (literal "") start = some start := by
  obtain ⟨before, after, rfl, rfl⟩ := h
  exact stop?_eq_some_iff.mpr ⟨before, after, by simp, rfl, by simp⟩

end Ends

theorem star_star (a : Expr) : EndsAlike (star (star a)) (star a) := by
  apply endsAlike_of_committedEnd
  intro input start
  obtain ⟨stop, hstop⟩ := exists_committedEnd_star input a start
  have hrest := committedEnd_star_at_end hstop
  by_cases hmove : stop = start
  · subst hmove
    rw [hstop]
    apply committedEnd_star_of_stop
    intro other hother
    exact Option.some.inj (hother.symm.trans hstop)
  · rw [committedEnd_star_of_advance hstop hmove, hstop]
    apply committedEnd_star_of_stop
    intro other hother
    exact Option.some.inj (hother.symm.trans hrest)

theorem star_concat_star (a : Expr) : EndsAlike (concat (star a) (star a)) (star a) := by
  apply endsAlike_of_committedEnd
  intro input start
  obtain ⟨stop, hstop⟩ := exists_committedEnd_star input a start
  rw [committedEnd, hstop, Option.bind_some]
  exact committedEnd_star_at_end hstop

/-- A star is one round and the star after it, or nothing. -/
theorem star_unfold (a : Expr) : EndsAlike (star a) (alternate (concat a (star a)) (literal "")) := by
  apply endsAlike_iff.mpr
  intro input start hstart
  rw [(isMatcher_committedEnd input).alternate, (isMatcher_committedEnd input).concat,
    committedEnd_blank hstart]
  cases hbody : committedEnd input a start with
  | none => exact (isMatcher_committedEnd input).star_of_stop a start (Or.inl hbody)
  | some stop =>
    obtain ⟨last, hlast⟩ := exists_committedEnd_star input a stop
    rw [Option.bind_some, hlast, Option.some_or]
    by_cases hmove : stop = start
    · rw [← hmove]
      exact hlast
    · rw [committedEnd_star_of_advance hbody hmove, hlast]

theorem concat_alternate (a b c : Expr) :
    EndsAlike (concat a (alternate b c)) (alternate (concat a b) (concat a c)) := by
  apply endsAlike_of_committedEnd
  intro input start
  simp only [(isMatcher_committedEnd input).concat, (isMatcher_committedEnd input).alternate]
  cases committedEnd input a start <;> rfl

/-- What follows the first operand in the second one is never tried. -/
theorem alternate_concat_self (a b : Expr) : EndsAlike (alternate a (concat a b)) a := by
  apply endsAlike_of_committedEnd
  intro input start
  rw [(isMatcher_committedEnd input).alternate, (isMatcher_committedEnd input).concat]
  cases committedEnd input a start <;> rfl

theorem alternate_assoc (a b c : Expr) :
    EndsAlike (alternate (alternate a b) c) (alternate a (alternate b c)) := by
  apply endsAlike_of_committedEnd
  intro input start
  simp only [(isMatcher_committedEnd input).alternate, Option.or_assoc]

theorem concat_assoc (a b c : Expr) :
    EndsAlike (concat (concat a b) c) (concat a (concat b c)) := by
  apply endsAlike_of_committedEnd
  intro input start
  exact Option.bind_assoc _ _ _

theorem empty_alternate (a : Expr) : EndsAlike (alternate empty a) a :=
  endsAlike_of_committedEnd fun _ _ => rfl

theorem alternate_empty (a : Expr) : EndsAlike (alternate a empty) a := by
  apply endsAlike_of_committedEnd
  intro input start
  rw [(isMatcher_committedEnd input).alternate]
  exact Option.or_none

theorem empty_concat (a : Expr) : EndsAlike (concat empty a) empty :=
  endsAlike_of_committedEnd fun _ _ => rfl

theorem concat_empty (a : Expr) : EndsAlike (concat a empty) empty := by
  apply endsAlike_of_committedEnd
  intro input start
  rw [(isMatcher_committedEnd input).concat]
  cases committedEnd input a start <;> rfl

theorem star_empty : EndsAlike (star empty) (literal "") := by
  apply endsAlike_iff.mpr
  intro input start hstart
  rw [committedEnd_blank hstart]
  exact (isMatcher_committedEnd input).star_of_stop empty start (Or.inl rfl)

/-- A choice that is followed by something cannot be multiplied out: its first operand is not taken back
when what follows fails. -/
theorem not_endsAlike_alternate_concat :
    ¬ EndsAlike (concat (alternate (literal "a") (literal "ab")) (literal "c"))
      (alternate (concat (literal "a") (literal "c")) (concat (literal "ab") (literal "c"))) := by
  intro h
  have hstart : IsBoundary "abc" 0 := ⟨"", "abc", rfl, rfl⟩
  have hends := endsAlike_iff.mp h "abc" 0 hstart
  revert hends
  decide +kernel

/-! ## Replacement -/

theorem EndsAlike.concat {a' b' : Expr} (ha : EndsAlike a a') (hb : EndsAlike b b') :
    EndsAlike (concat a b) (concat a' b') := by
  apply endsAlike_iff.mpr
  intro input start hstart
  rw [(isMatcher_committedEnd input).concat, (isMatcher_committedEnd input).concat,
    ← endsAlike_iff.mp ha input start hstart]
  cases hend : committedEnd input a start with
  | none => rfl
  | some stop => exact endsAlike_iff.mp hb input stop (isBoundary_of_committedEnd hstart hend)

theorem EndsAlike.alternate {a' b' : Expr} (ha : EndsAlike a a') (hb : EndsAlike b b') :
    EndsAlike (alternate a b) (alternate a' b') := by
  apply endsAlike_iff.mpr
  intro input start hstart
  rw [(isMatcher_committedEnd input).alternate, (isMatcher_committedEnd input).alternate,
    endsAlike_iff.mp ha input start hstart, endsAlike_iff.mp hb input start hstart]

/-- Bodies that end alike go through the same rounds, each of which starts at a place of the input. -/
theorem EndsAlike.star (h : EndsAlike a b) : EndsAlike (star a) (star b) := by
  apply endsAlike_iff.mpr
  intro input start hstart
  induction start using rounds_induction with
  | last start hlast =>
    have hbody := endsAlike_iff.mp h input start hstart
    rw [committedEnd_star_of_stop hlast]
    rw [hbody] at hlast
    exact (committedEnd_star_of_stop hlast).symm
  | more start stop hend hlt _ ih =>
    have hbody := endsAlike_iff.mp h input start hstart
    have hmove : stop ≠ start := by omega
    rw [committedEnd_star_of_advance hend hmove, ih (isBoundary_of_committedEnd hstart hend)]
    exact (committedEnd_star_of_advance (hbody.symm.trans hend) hmove).symm

/-- An expression with one place left open. -/
inductive Context
  | hole
  | left (context : Context) (b : Expr)
  | right (a : Expr) (context : Context)
  | first (context : Context) (b : Expr)
  | second (a : Expr) (context : Context)
  | body (context : Context)

/-- Puts an expression into the open place. -/
def Context.fill : Context → Expr → Expr
  | hole, e => e
  | left context b, e => .concat (context.fill e) b
  | right a context, e => .concat a (context.fill e)
  | first context b, e => .alternate (context.fill e) b
  | second a context, e => .alternate a (context.fill e)
  | body context, e => .star (context.fill e)

/-- Whatever occurs in an expression stands at an open place of the rest. -/
theorem isPartOf_iff_exists_fill {e whole : Expr} :
    e.IsPartOf whole ↔ ∃ context : Context, context.fill e = whole := by
  constructor
  · intro h
    induction h with
    | refl => exact ⟨.hole, rfl⟩
    | left b _ ih =>
      obtain ⟨context, rfl⟩ := ih
      exact ⟨.left context b, rfl⟩
    | right a _ ih =>
      obtain ⟨context, rfl⟩ := ih
      exact ⟨.right a context, rfl⟩
    | first b _ ih =>
      obtain ⟨context, rfl⟩ := ih
      exact ⟨.first context b, rfl⟩
    | second a _ ih =>
      obtain ⟨context, rfl⟩ := ih
      exact ⟨.second a context, rfl⟩
    | body _ ih =>
      obtain ⟨context, rfl⟩ := ih
      exact ⟨.body context, rfl⟩
  · rintro ⟨context, rfl⟩
    induction context with
    | hole => exact .refl e
    | left _ b ih => exact .left b ih
    | right a _ ih => exact .right a ih
    | first _ b ih => exact .first b ih
    | second a _ ih => exact .second a ih
    | body _ ih => exact .body ih

theorem EndsAlike.fill (h : EndsAlike a b) (context : Context) :
    EndsAlike (context.fill a) (context.fill b) := by
  have same (e : Expr) : EndsAlike e e := equivalence_endsAlike.refl e
  induction context with
  | hole => exact h
  | left _ other ih => exact ih.concat (same other)
  | right other _ ih => exact (same other).concat ih
  | first _ other ih => exact ih.alternate (same other)
  | second other _ ih => exact (same other).alternate ih
  | body _ ih => exact ih.star

theorem EndsAlike.findEnd_eq (h : EndsAlike a b) (input : String) :
    ({} : Config).findEnd a input = ({} : Config).findEnd b input := by
  have begins : IsBoundary input 0 := ⟨"", input, String.empty_append.symm, rfl⟩
  rw [findEnd_default, findEnd_default, endsAlike_iff.mp h input 0 begins]

theorem EndsAlike.matches_eq (h : EndsAlike a b) (input : String) :
    a.matches input = b.matches input := by
  rw [Expr.matches, Expr.matches, Config.isMatch, Config.isMatch, h.findEnd_eq input]

/-- The laws of stars, choices and concatenations that commitment leaves. -/
structure CommittedLaws (alike : Expr → Expr → Prop) : Prop where
  star_star : ∀ a, alike (star (star a)) (star a)
  star_concat_star : ∀ a, alike (concat (star a) (star a)) (star a)
  star_unfold : ∀ a, alike (star a) (alternate (concat a (star a)) (literal ""))
  concat_alternate : ∀ a b c,
    alike (concat a (alternate b c)) (alternate (concat a b) (concat a c))
  alternate_concat_self : ∀ a b, alike (alternate a (concat a b)) a
  alternate_assoc : ∀ a b c, alike (alternate (alternate a b) c) (alternate a (alternate b c))
  concat_assoc : ∀ a b c, alike (concat (concat a b) c) (concat a (concat b c))
  empty_alternate : ∀ a, alike (alternate empty a) a
  alternate_empty : ∀ a, alike (alternate a empty) a
  empty_concat : ∀ a, alike (concat empty a) empty
  concat_empty : ∀ a, alike (concat a empty) empty
  star_empty : alike (star empty) (literal "")

/-- To end alike is an equivalence that keeps the laws, and whatever occurs in an expression may be
replaced by what ends alike: no end of the whole and no match changes. -/
theorem replacement_keeps_matches :
    Equivalence EndsAlike ∧ CommittedLaws EndsAlike ∧
      (∀ e whole, e.IsPartOf whole ↔ ∃ context : Context, context.fill e = whole) ∧
      ∀ a b, EndsAlike a b → ∀ context : Context,
        EndsAlike (context.fill a) (context.fill b) ∧ ∀ input,
          ({} : Config).findEnd (context.fill a) input = ({} : Config).findEnd (context.fill b) input ∧
          (context.fill a).matches input = (context.fill b).matches input := by
  refine ⟨equivalence_endsAlike, ?_, fun _ _ => isPartOf_iff_exists_fill, ?_⟩
  · exact {
      star_star := star_star
      star_concat_star := star_concat_star
      star_unfold := star_unfold
      concat_alternate := concat_alternate
      alternate_concat_self := alternate_concat_self
      alternate_assoc := alternate_assoc
      concat_assoc := concat_assoc
      empty_alternate := empty_alternate
      alternate_empty := alternate_empty
      empty_concat := empty_concat
      concat_empty := concat_empty
      star_empty := star_empty }
  · intro a b h context
    have whole := h.fill context
    exact ⟨whole, fun input => ⟨whole.findEnd_eq input, whole.matches_eq input⟩⟩

private def nestedStar : Context :=
  .first (.right (.literal "x") (.left .hole (.literal "b"))) (.literal "y")

theorem nested_star_is_replaced :
    EndsAlike (.star (.star (.literal "é"))) (.star (.literal "é")) ∧
      ({} : Config).findEnd (nestedStar.fill (.star (.star (.literal "é")))) "xéébb" = .ok (some 6) ∧
      (nestedStar.fill (.star (.star (.literal "é")))).matches "xééb" = true := by
  have alike := star_star (.literal "é")
  have replaced := (replacement_keeps_matches.2.2.2 _ _ alike nestedStar).2
  refine ⟨alike, (replaced "xéébb").1.trans ?_, (replaced "xééb").2.trans ?_⟩
  · rw [findEnd_default]
    decide +kernel
  · rw [matches_iff]
    decide +kernel

end CommittedRegex.Expr
