/-! # Regular expressions as trees

Five kinds of node. A choice is written `alternate`, a repetition `star`; the expression `empty` never
matches, unlike the literal of the empty text. -/
namespace CommittedRegex

inductive Expr
  /-- Matches nowhere. -/
  | empty
  /-- Matches exactly this text. -/
  | literal (text : String)
  /-- Matches the left operand, then the right one where the left one ended. -/
  | concat (left right : Expr)
  /-- Matches the first operand, or the second one where the first does not match. -/
  | alternate (first second : Expr)
  /-- Matches the body as often as it matches in a row, maybe never. -/
  | star (body : Expr)
  deriving Inhabited

namespace Expr

def kindName : Expr → String
  | empty => "empty"
  | literal _ => "literal"
  | concat _ _ => "concat"
  | alternate _ _ => "alternate"
  | star _ => "repeat"

/-- The number of nodes of the tree; a subtree that occurs twice counts twice. -/
def nodeCount : Expr → Nat
  | empty => 1
  | literal _ => 1
  | concat a b => 1 + a.nodeCount + b.nodeCount
  | alternate a b => 1 + a.nodeCount + b.nodeCount
  | star a => 1 + a.nodeCount

/-- The number of nodes on the longest way from the root to a leaf. -/
def depth : Expr → Nat
  | empty => 1
  | literal _ => 1
  | concat a b => 1 + max a.depth b.depth
  | alternate a b => 1 + max a.depth b.depth
  | star a => 1 + a.depth

/-- The first expression occurs in the second one, maybe as the whole of it. -/
inductive IsPartOf : Expr → Expr → Prop
  | refl (e : Expr) : IsPartOf e e
  | left {e a : Expr} (b : Expr) : IsPartOf e a → IsPartOf e (concat a b)
  | right {e b : Expr} (a : Expr) : IsPartOf e b → IsPartOf e (concat a b)
  | first {e a : Expr} (b : Expr) : IsPartOf e a → IsPartOf e (alternate a b)
  | second {e b : Expr} (a : Expr) : IsPartOf e b → IsPartOf e (alternate a b)
  | body {e a : Expr} : IsPartOf e a → IsPartOf e (star a)

theorem IsPartOf.trans {a b c : Expr} (h : a.IsPartOf b) (h' : b.IsPartOf c) : a.IsPartOf c := by
  induction h' with
  | refl => exact h
  | left other _ ih => exact .left other ih
  | right other _ ih => exact .right other ih
  | first other _ ih => exact .first other ih
  | second other _ ih => exact .second other ih
  | body _ ih => exact .body ih

end Expr

end CommittedRegex
