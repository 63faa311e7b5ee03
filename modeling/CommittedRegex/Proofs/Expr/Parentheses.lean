import CommittedRegex.Proofs.Expr.Reading

/-! # Parentheses around bodies

The printer opens a parenthesis before an operand that binds too loosely for its place, and the closing
one comes off its list right behind the body of that operand. So the parentheses among the tokens of a
written form are paired, and what stands between the two of a pair is the body of a part of the
expression: the tokens of the part as it would be written by itself. -/
namespace CommittedRegex.Expr
open Text

/-- The parentheses are paired, and each pair stands around the body of a part that is a choice or a
concatenation. -/
inductive IsPaired (e : Expr) : List Token → Prop
  | nil : IsPaired e []
  | token {token : Token} {ts : List Token} (hopening : token ≠ .opening) (hclosing : token ≠ .closing)
      (rest : IsPaired e ts) : IsPaired e (token :: ts)
  | body {part : Expr} {ts : List Token} (hpart : part.IsPartOf e) (hloose : part.tightness < 2)
      (inner : IsPaired e (part.tokens 0)) (rest : IsPaired e ts) :
      IsPaired e (.opening :: part.tokens 0 ++ .closing :: ts)

/-- The row ends with an opening parenthesis and the paired body of a part that stands behind it. -/
def EndsWithBody (e : Expr) (ts : List Token) : Prop :=
  ∃ (start : List Token) (part : Expr), ts = start ++ .opening :: part.tokens 0 ∧ part.IsPartOf e ∧
    part.tightness < 2 ∧ IsPaired e (part.tokens 0)

namespace IsPaired

variable {e whole : Expr} {ts us : List Token}

theorem append (h : IsPaired e ts) (h' : IsPaired e us) : IsPaired e (ts ++ us) := by
  induction h with
  | nil => exact h'
  | token hopening hclosing _ ih => exact .token hopening hclosing ih
  | body hpart hloose inner _ _ ih =>
    rw [List.append_assoc, List.cons_append]
    exact .body hpart hloose inner ih

theorem of_isPartOf (h : IsPaired e ts) (hpart : e.IsPartOf whole) : IsPaired whole ts := by
  induction h with
  | nil => exact .nil
  | token hopening hclosing _ ih => exact .token hopening hclosing ih
  | body hinner hloose _ _ ihinner ih => exact .body (hinner.trans hpart) hloose ihinner ih

/-- A closing parenthesis stands right behind a body, and the opening one right before it. -/
theorem endsWithBody {before after : List Token} (h : IsPaired e ts)
    (hclosing : ts = before ++ .closing :: after) : EndsWithBody e before := by
  induction h generalizing before after with
  | nil => simp at hclosing
  | token hopening hother _ ih =>
    cases before with
    | nil => exact absurd (List.cons.inj hclosing).1 hother
    | cons first before =>
      obtain ⟨start, part, rfl, hpart⟩ := ih (List.cons.inj hclosing).2
      exact ⟨first :: start, part, rfl, hpart⟩
  | @body part ts hpart hloose inner _ ihinner ih =>
    cases before with
    | nil => exact Token.noConfusion (List.cons.inj hclosing).1
    | cons first before =>
      obtain ⟨rfl, hsplit⟩ := List.cons.inj hclosing
      -- The parenthesis is the one behind the body, or it stands behind that one, or in the body.
      rcases List.append_eq_append_iff.mp hsplit with ⟨mid, rfl, hmid⟩ | ⟨mid, hbody, hmid⟩
      · cases mid with
        | nil => exact ⟨[], part, by simp, hpart, hloose, inner⟩
        | cons last mid =>
          obtain ⟨rfl, hrest⟩ := List.cons.inj hmid
          obtain ⟨start, other, rfl, hother⟩ := ih hrest
          exact ⟨.opening :: part.tokens 0 ++ .closing :: start, other, by simp, hother⟩
      · cases mid with
        | nil =>
          rw [List.append_nil] at hbody
          exact ⟨[], part, by rw [hbody]; rfl, hpart, hloose, inner⟩
        | cons last mid =>
          obtain ⟨rfl, -⟩ := List.cons.inj hmid
          obtain ⟨start, other, rfl, hother⟩ := ihinner hbody
          exact ⟨.opening :: start, other, rfl, hother⟩

end IsPaired

/-- At a place that asks for more than it has, an expression is its body between parentheses. -/
theorem tokens_eq_enclosed (least : Nat) (e : Expr) :
    e.tokens least = enclosed (e.tightness < least) (e.tokens 0) := by
  cases e <;> rfl

theorem isPaired_tokens_of_body {e : Expr} (h : IsPaired e (e.tokens 0)) {least : Nat} (hleast : least ≤ 2) :
    IsPaired e (e.tokens least) := by
  rw [tokens_eq_enclosed, enclosed]
  split
  case isTrue hwrapped =>
    have hloose : e.tightness < least := of_decide_eq_true hwrapped
    exact .body (.refl e) (by omega) h .nil
  case isFalse => exact h

theorem isPaired_tokens (e : Expr) : IsPaired e (e.tokens 0) := by
  induction e with
  | empty => exact .token nofun nofun .nil
  | literal text => exact .token nofun nofun .nil
  | concat a b iha ihb =>
    have hleft := (isPaired_tokens_of_body iha (Nat.le_succ 1)).of_isPartOf (.left b (.refl a))
    have hright := (isPaired_tokens_of_body ihb (Nat.le_refl 2)).of_isPartOf (.right a (.refl b))
    exact hleft.append (.token nofun nofun hright)
  | alternate a b iha ihb =>
    have hfirst := iha.of_isPartOf (.first b (.refl a))
    have hsecond := (isPaired_tokens_of_body ihb (Nat.le_succ 1)).of_isPartOf (.second a (.refl b))
    exact hfirst.append (.token nofun nofun hsecond)
  | star a iha =>
    have hbody := (isPaired_tokens_of_body iha (Nat.le_refl 2)).of_isPartOf (.body (.refl a))
    exact hbody.append (.token nofun nofun .nil)

theorem tokens?_display (e : Expr) : tokens? e.display.toList = some (e.tokens 0) := by
  rw [toList_display, writtenWith, tokens?_flatMap isQuotation_quoted]

/-- Whatever pieces are still to come, the printer writes their spellings one after the other, so it
spells an expression as recursion on the tree does. In the tokens of what it wrote the parentheses are
paired, and each closing one stands right behind the body for which its opening one stands. -/
theorem printer_closes_behind_bodies :
    (∀ written pieces, write written pieces = written ++ spellAll pieces) ∧
      ∀ e : Expr, e.display = e.spelling 0 ∧ tokens? e.display.toList = some (e.tokens 0) ∧
        IsPaired e (e.tokens 0) ∧
        ∀ before after, e.tokens 0 = before ++ .closing :: after → EndsWithBody e before := by
  refine ⟨write_eq, fun e => ⟨display_eq_spelling e, tokens?_display e, isPaired_tokens e, ?_⟩⟩
  intro before after hclosing
  exact (isPaired_tokens e).endsWithBody hclosing

end CommittedRegex.Expr
