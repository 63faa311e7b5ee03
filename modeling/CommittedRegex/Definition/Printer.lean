import CommittedRegex.Definition.Basic
import CommittedRegex.Text.Quoted

/-! # The structure of a definition as text

Constructors with their arguments in parentheses and operand lists in brackets, written with a list of
the pieces still to come, so that the depth of a definition does not matter. -/
namespace CommittedRegex.Definition
open Text

/-- What is still to be written: a definition, the rest of an operand list, or a fixed text. -/
inductive Piece
  | whole (definition : Definition)
  | rest (operands : List Definition)
  | text (text : String)

/-- A bound on the pieces that come out of a piece. -/
def Piece.weight : Piece → Nat
  | whole definition => 3 * definition.size
  | rest operands => 1 + 3 * sizeAll operands
  | text _ => 1

def totalWeight : List Piece → Nat
  | [] => 0
  | piece :: pieces => piece.weight + totalWeight pieces

/-- Writes the pieces after `written`. -/
def write (written : String) : List Piece → String
  | [] => written
  | .text text :: pieces => write (written ++ text) pieces
  | .rest [] :: pieces => write written pieces
  | .rest (next :: operands) :: pieces =>
    write (written ++ ", ") (.whole next :: .rest operands :: pieces)
  | .whole .empty :: pieces => write (written ++ "Empty") pieces
  | .whole (.literal text) :: pieces => write ((appendQuoted (written ++ "Literal(") text).push ')') pieces
  | .whole (.concat []) :: pieces => write (written ++ "Concat([])") pieces
  | .whole (.concat (first :: operands)) :: pieces =>
    write (written ++ "Concat([") (.whole first :: .rest operands :: .text "])" :: pieces)
  | .whole (.alternate []) :: pieces => write (written ++ "Alternate([])") pieces
  | .whole (.alternate (first :: operands)) :: pieces =>
    write (written ++ "Alternate([") (.whole first :: .rest operands :: .text "])" :: pieces)
  | .whole (.star body) :: pieces =>
    write (written ++ "Repeat(") (.whole body :: .text ")" :: pieces)
termination_by pieces => totalWeight pieces
decreasing_by
  all_goals
    simp only [totalWeight, Piece.weight, size, sizeAll]
    omega

def inspect (definition : Definition) : String := write "" [.whole definition]

end CommittedRegex.Definition
