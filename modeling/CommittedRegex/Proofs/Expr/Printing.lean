import CommittedRegex.Expr.Printer

/-! # The printer and the recursive spelling

Whatever pieces are still to come, the printer writes their spellings one after the other; so it spells
an expression as recursion on the tree does. -/
namespace CommittedRegex.Expr
open Text

def Piece.spelling : Piece → String
  | node e least => e.spelling least
  | text fixed => fixed

/-- The spellings of the pieces one after the other. -/
def spellAll : List Piece → String
  | [] => ""
  | piece :: pieces => piece.spelling ++ spellAll pieces

theorem appendQuoted_eq (before text : String) : appendQuoted before text = before ++ quoted text := by
  rw [← String.toList_inj]
  simp [toList_appendQuoted]

/-- A parenthesis that was opened is closed right after the body that it was opened for. -/
private theorem spellAll_closing (wrapped : Bool) (written body : String) (pieces : List Piece) :
    (if wrapped then written ++ "(" else written) ++ body ++ spellAll (closing wrapped pieces) =
      written ++ (parenthesized wrapped body ++ spellAll pieces) := by
  cases wrapped <;> simp [closing, spellAll, Piece.spelling, parenthesized, String.append_assoc]

theorem write_eq (written : String) (pieces : List Piece) :
    write written pieces = written ++ spellAll pieces := by
  fun_induction write written pieces with
  | case1 => simp [spellAll]
  | case2 written text pieces ih => rw [ih, spellAll, Piece.spelling, String.append_assoc]
  | case3 written least pieces wrapped opened ih =>
    rw [ih, spellAll, Piece.spelling, spelling]
    exact spellAll_closing wrapped written "∅" pieces
  | case4 written least pieces text wrapped opened ih =>
    rw [ih, spellAll, Piece.spelling, spelling, appendQuoted_eq]
    exact spellAll_closing wrapped written (quoted text) pieces
  | case5 written least pieces a b wrapped opened ih =>
    have closed := spellAll_closing wrapped written (a.spelling 1 ++ " " ++ b.spelling 2) pieces
    rw [ih]
    simp only [spellAll, Piece.spelling, spelling, String.append_assoc] at closed ⊢
    exact closed
  | case6 written least pieces a b wrapped opened ih =>
    have closed := spellAll_closing wrapped written (a.spelling 0 ++ " | " ++ b.spelling 1) pieces
    rw [ih]
    simp only [spellAll, Piece.spelling, spelling, String.append_assoc] at closed ⊢
    exact closed
  | case7 written least pieces a wrapped opened ih =>
    have closed := spellAll_closing wrapped written (a.spelling 2 ++ "*") pieces
    rw [ih]
    simp only [spellAll, Piece.spelling, spelling, String.append_assoc] at closed ⊢
    exact closed

theorem display_eq_spelling (e : Expr) : e.display = e.spelling 0 := by
  rw [display, write_eq]
  simp [spellAll, Piece.spelling]

end CommittedRegex.Expr
