import CommittedRegex.Expr.Basic
import CommittedRegex.Text.Quoted

/-! # The written form of an expression

Literals are quoted texts, operands that follow each other are concatenated, a bar separates the
choices, a star follows its body, and the expression that never matches is the empty-set sign.
Parentheses stand only where an operand binds less tightly than its place asks for. `spelling` says
so by recursion on the tree; `display` writes the same text with a list of the pieces still to come,
so it needs no call stack. -/
namespace CommittedRegex.Expr
open Text

/-- How tightly the topmost operator binds. -/
def tightness : Expr → Nat
  | alternate _ _ => 0
  | concat _ _ => 1
  | star _ => 2
  | empty => 3
  | literal _ => 3

def parenthesized (wrapped : Bool) (text : String) : String :=
  if wrapped then "(" ++ text ++ ")" else text

/-- The written form at a place that asks for the tightness `least`. -/
def spelling (least : Nat) (e : Expr) : String :=
  parenthesized (e.tightness < least) <|
    match e with
    | empty => "∅"
    | literal text => quoted text
    | concat a b => a.spelling 1 ++ " " ++ b.spelling 2
    | alternate a b => a.spelling 0 ++ " | " ++ b.spelling 1
    | star a => a.spelling 2 ++ "*"

/-- What is still to be written: an expression at a place, or a fixed text. -/
inductive Piece
  | node (expr : Expr) (least : Nat)
  | text (text : String)

/-- A bound on the pieces that come out of a piece. -/
def Piece.weight : Piece → Nat
  | node expr _ => 5 * expr.nodeCount
  | text _ => 1

/-- The pieces after a node: its closing parenthesis, if it has one, and what stood there before. -/
def closing (wrapped : Bool) (pieces : List Piece) : List Piece :=
  if wrapped then .text ")" :: pieces else pieces

def weight : List Piece → Nat
  | [] => 0
  | piece :: pieces => piece.weight + weight pieces

private theorem weight_cons (piece : Piece) (pieces : List Piece) :
    weight (piece :: pieces) = piece.weight + weight pieces := rfl

private theorem weight_closing (wrapped : Bool) (pieces : List Piece) :
    weight (closing wrapped pieces) ≤ 1 + weight pieces := by
  cases wrapped <;> simp [closing, weight, Piece.weight]

/-- Writes the pieces after `written`. -/
def write (written : String) : List Piece → String
  | [] => written
  | .text text :: pieces => write (written ++ text) pieces
  | .node e least :: pieces =>
    let wrapped : Bool := e.tightness < least
    let written := if wrapped then written ++ "(" else written
    match e with
    | empty => write (written ++ "∅") (closing wrapped pieces)
    | literal text => write (appendQuoted written text) (closing wrapped pieces)
    | concat a b => write written (.node a 1 :: .text " " :: .node b 2 :: closing wrapped pieces)
    | alternate a b =>
      write written (.node a 0 :: .text " | " :: .node b 1 :: closing wrapped pieces)
    | star a => write written (.node a 2 :: .text "*" :: closing wrapped pieces)
termination_by pieces => weight pieces
decreasing_by
  · simp only [weight_cons, Piece.weight]
    omega
  all_goals
    have bound := weight_closing (e.tightness < least) pieces
    simp only [weight_cons, Piece.weight, nodeCount]
    omega

def display (e : Expr) : String := write "" [.node e 0]

def inspect (e : Expr) : String := "Expr(" ++ e.display ++ ")"

/-- The kind of the root node with the written forms of its operands. -/
def inspectKind : Expr → String
  | empty => "Empty"
  | literal text => "Literal(" ++ quoted text ++ ")"
  | concat a b => "Concat(" ++ a.display ++ ", " ++ b.display ++ ")"
  | alternate a b => "Alternate(" ++ a.display ++ ", " ++ b.display ++ ")"
  | star a => "Repeat(" ++ a.display ++ ")"

end CommittedRegex.Expr
