import CommittedRegex.Proofs.Expr.Printing
import CommittedRegex.Proofs.Text.Spelling

/-! # The written form is read back

The written form is a row of tokens. A reader takes the tokens one after the other and keeps, for every
parenthesis that is still open, what stands before the last bar, what stands after it and before the
last gap, and the factor at hand. Parentheses are left out only where this reader puts the operands
together as they were: choices and sequences nest to the left, a star takes the factor before it. So
each written form belongs to one expression, however its literals are quoted. -/
namespace CommittedRegex.Expr
open Text

inductive Token
  | literal (text : String)
  | never
  | star
  /-- The space between two operands of a concatenation. -/
  | gap
  /-- The bar between two choices, with the spaces around it. -/
  | bar
  | opening
  | closing

def enclosed (wrapped : Bool) (tokens : List Token) : List Token :=
  if wrapped then .opening :: tokens ++ [.closing] else tokens

/-- The tokens of the written form at a place that asks for the tightness `least`. -/
def tokens (least : Nat) (e : Expr) : List Token :=
  enclosed (e.tightness < least) <|
    match e with
    | empty => [.never]
    | literal text => [.literal text]
    | concat a b => a.tokens 1 ++ .gap :: b.tokens 2
    | alternate a b => a.tokens 0 ++ .bar :: b.tokens 1
    | star a => a.tokens 2 ++ [.star]

/-- The characters of a token. -/
def Token.chars (quote : String → List Char) : Token → List Char
  | literal text => quote text
  | never => ['∅']
  | star => ['*']
  | gap => [' ']
  | bar => [' ', '|', ' ']
  | opening => ['(']
  | closing => [')']

/-- The written form if literals are quoted by `quote`. -/
def writtenWith (quote : String → List Char) (e : Expr) : List Char :=
  (e.tokens 0).flatMap (Token.chars quote)

/-! ## From characters to tokens -/

def tokens? (cs : List Char) : Option (List Token) :=
  match cs with
  | [] => some []
  | '∅' :: cs => (tokens? cs).map (.never :: ·)
  | '*' :: cs => (tokens? cs).map (.star :: ·)
  | '(' :: cs => (tokens? cs).map (.opening :: ·)
  | ')' :: cs => (tokens? cs).map (.closing :: ·)
  | ' ' :: '|' :: ' ' :: cs => (tokens? cs).map (.bar :: ·)
  | ' ' :: cs => (tokens? cs).map (.gap :: ·)
  | '"' :: cs =>
    match _h : readQuoted [] .nothing cs with
    | some (text, rest) => (tokens? rest).map (.literal (String.ofList text) :: ·)
    | none => none
  | _ => none
termination_by cs.length
decreasing_by
  all_goals simp only [List.length_cons]
  · omega
  · omega
  · omega
  · omega
  · omega
  · omega
  · have := length_of_readQuoted _h
    omega

private theorem tokens?_quotation {text written : List Char} (h : IsQuotation text written)
    (cs : List Char) :
    tokens? (written ++ cs) = (tokens? cs).map (.literal (String.ofList text) :: ·) := by
  obtain ⟨body, hbody, rfl⟩ := h
  have hread := readQuoted_spellsAll hbody [] cs
  rw [List.reverse_nil, List.nil_append] at hread
  rw [List.append_assoc, List.cons_append, List.singleton_append, tokens?]
  split
  · rename_i hsome
    cases hread.symm.trans hsome
    rfl
  · rename_i hnone
    simp [hread] at hnone

/-- A gap is never followed by a bar alone, so it is not mistaken for the beginning of one. -/
private theorem tokens?_gap {cs : List Char} (h : cs.head? ≠ some '|') :
    tokens? (' ' :: cs) = (tokens? cs).map (.gap :: ·) := by
  rw [tokens?]
  rintro _ rfl
  simp at h

private theorem head?_chars {quote : String → List Char}
    (hquote : ∀ text, IsQuotation text.toList (quote text)) (ts : List Token) :
    (ts.flatMap (Token.chars quote)).head? ≠ some '|' := by
  cases ts with
  | nil => simp
  | cons token ts =>
    cases token with
    | literal text =>
      obtain ⟨body, -, hwritten⟩ := hquote text
      simp [Token.chars, hwritten]
    | _ => simp [Token.chars]

theorem tokens?_flatMap {quote : String → List Char}
    (hquote : ∀ text, IsQuotation text.toList (quote text)) (ts : List Token) :
    tokens? (ts.flatMap (Token.chars quote)) = some ts := by
  induction ts with
  | nil => simp [tokens?]
  | cons token ts ih =>
    rw [List.flatMap_cons]
    cases token with
    | literal text => rw [Token.chars, tokens?_quotation (hquote text), ih]; simp
    | gap => rw [Token.chars, List.singleton_append, tokens?_gap (head?_chars hquote ts), ih]; simp
    | _ => simp [Token.chars, tokens?, ih]

/-! ## From tokens to an expression -/

/-- What has been read since a parenthesis was opened. -/
structure Level where
  /-- The choices before the last bar. -/
  choices : Option Expr := none
  /-- The operands behind that bar and before the last gap. -/
  operands : Option Expr := none
  /-- The factor behind that gap. -/
  factor : Option Expr := none

/-- An operand behind an operator with what stands before the operator, if there is one. -/
def behind (operator : Expr → Expr → Expr) : Option Expr → Expr → Expr
  | none, e => e
  | some before, e => operator before e

namespace Level

/-- The concatenation that ends here. -/
def concatenation? (level : Level) : Option Expr := level.factor.map (behind .concat level.operands)

/-- The choice that ends here. -/
def choice? (level : Level) : Option Expr := level.concatenation?.map (behind .alternate level.choices)

def putFactor? (e : Expr) : Level → Option Level
  | ⟨choices, operands, none⟩ => some ⟨choices, operands, some e⟩
  | _ => none

end Level

/-- Reads one token on top of the levels that are open, the innermost one first. -/
def readToken : List Level → Token → Option (List Level)
  | level :: levels, .literal text => (level.putFactor? (.literal text)).map (· :: levels)
  | level :: levels, .never => (level.putFactor? .empty).map (· :: levels)
  | ⟨choices, operands, some e⟩ :: levels, .star => some (⟨choices, operands, some (.star e)⟩ :: levels)
  | level :: levels, .gap =>
    level.concatenation?.map fun e => ⟨level.choices, some e, none⟩ :: levels
  | level :: levels, .bar => level.choice?.map fun e => ⟨some e, none, none⟩ :: levels
  | levels, .opening => some ({} :: levels)
  | inner :: level :: levels, .closing =>
    inner.choice?.bind fun e => (level.putFactor? e).map (· :: levels)
  | _, _ => none

/-- The expression with the given written form, however its literals are quoted. -/
def ofWritten? (cs : List Char) : Option Expr := do
  match ← (← tokens? cs).foldlM readToken [{}] with
  | [level] => level.choice?
  | _ => none

/-- Reading the tokens where an operand of some tightness is due leaves the expression there. -/
def Reads : (least : Nat) → List Token → Expr → Prop
  | 0, ts, e => ∀ levels, ∃ level,
    ts.foldlM readToken ({} :: levels) = some (level :: levels) ∧ level.choice? = some e
  | 1, ts, e => ∀ choices levels, ∃ level,
    ts.foldlM readToken (⟨choices, none, none⟩ :: levels) = some (level :: levels) ∧
      level.choices = choices ∧ level.concatenation? = some e
  | _ + 2, ts, e => ∀ choices operands levels,
    ts.foldlM readToken (⟨choices, operands, none⟩ :: levels) =
      some (⟨choices, operands, some e⟩ :: levels)

section Reads

variable {ts : List Token} {e : Expr} {least : Nat}

/-- What binds tightly may stand where less is asked for. -/
theorem Reads.pred (h : Reads (least + 1) ts e) : Reads least ts e := by
  match least with
  | 0 =>
    intro levels
    obtain ⟨level, hread, hchoices, hlevel⟩ := h none levels
    exact ⟨level, hread, by simp [Level.choice?, hchoices, hlevel, behind]⟩
  | 1 =>
    intro choices levels
    exact ⟨_, h choices none levels, rfl, rfl⟩
  | _ + 2 => exact h

theorem Reads.of_le {tightness : Nat} (h : Reads tightness ts e) (hle : least ≤ tightness) :
    Reads least ts e := by
  induction hle with
  | refl => exact h
  | step _ ih => exact ih h.pred

/-- Parentheses make a factor of anything. -/
theorem Reads.parenthesized (h : Reads 0 ts e) : Reads least (.opening :: ts ++ [.closing]) e := by
  have factor : Reads (least + 2) (.opening :: ts ++ [.closing]) e := by
    intro choices operands levels
    obtain ⟨inner, hread, hinner⟩ := h (⟨choices, operands, none⟩ :: levels)
    simp [List.foldlM_append, readToken, hread, hinner, Level.putFactor?]
  exact factor.of_le (by omega)

theorem Reads.enclosed (h : Reads e.tightness ts e) :
    Reads least (enclosed (e.tightness < least) ts) e := by
  unfold Expr.enclosed
  split
  · exact (h.of_le (Nat.zero_le _)).parenthesized
  · rename_i hwrapped
    exact h.of_le (by simpa using hwrapped)

end Reads

theorem reads_tokens (least : Nat) (e : Expr) : Reads least (e.tokens least) e := by
  induction e generalizing least with
  | empty =>
    apply Reads.enclosed
    intro choices operands levels
    rfl
  | literal text =>
    apply Reads.enclosed
    intro choices operands levels
    rfl
  | concat a b iha ihb =>
    apply Reads.enclosed
    intro choices levels
    obtain ⟨level, hread, hchoices, hlevel⟩ := iha 1 choices levels
    have gap : readToken (level :: levels) .gap = some (⟨choices, some a, none⟩ :: levels) := by
      simp [readToken, hchoices, hlevel]
    refine ⟨⟨choices, some a, some b⟩, ?_, rfl, rfl⟩
    simp [List.foldlM_append, hread, gap, ihb 2 choices (some a) levels]
  | alternate a b iha ihb =>
    apply Reads.enclosed
    intro levels
    obtain ⟨level, hread, hlevel⟩ := iha 0 levels
    have bar : readToken (level :: levels) .bar = some (⟨some a, none, none⟩ :: levels) := by
      simp [readToken, hlevel]
    obtain ⟨last, hlast, hchoices, hconcatenation⟩ := ihb 1 (some a) levels
    refine ⟨last, ?_, by simp [Level.choice?, hchoices, hconcatenation, behind]⟩
    simp [List.foldlM_append, hread, bar, hlast]
  | star a iha =>
    apply Reads.enclosed
    intro choices operands levels
    simp [List.foldlM_append, iha 2 choices operands levels, readToken]

/-- Whichever way literals are quoted, the written form leads back to the expression. -/
theorem ofWritten?_writtenWith {quote : String → List Char}
    (hquote : ∀ text, IsQuotation text.toList (quote text)) (e : Expr) :
    ofWritten? (e.writtenWith quote) = some e := by
  obtain ⟨level, hread, hlevel⟩ := reads_tokens 0 e []
  simp [ofWritten?, writtenWith, tokens?_flatMap hquote, hread, hlevel]

/-! ## The printer's written form -/

private theorem toList_parenthesized (wrapped : Bool) {body : String} {quote : String → List Char}
    {ts : List Token} (h : body.toList = ts.flatMap (Token.chars quote)) :
    (parenthesized wrapped body).toList = (enclosed wrapped ts).flatMap (Token.chars quote) := by
  cases wrapped <;> simp [parenthesized, enclosed, Token.chars, h]

theorem toList_spelling (least : Nat) (e : Expr) :
    (e.spelling least).toList =
      (e.tokens least).flatMap (Token.chars fun text => (quoted text).toList) := by
  induction e generalizing least with
  | empty => exact toList_parenthesized _ (by simp [Token.chars])
  | literal text => exact toList_parenthesized _ (by simp [Token.chars])
  | concat a b iha ihb => exact toList_parenthesized _ (by simp [Token.chars, iha, ihb])
  | alternate a b iha ihb => exact toList_parenthesized _ (by simp [Token.chars, iha, ihb])
  | star a iha => exact toList_parenthesized _ (by simp [Token.chars, iha])

theorem toList_display (e : Expr) :
    e.display.toList = e.writtenWith fun text => (quoted text).toList := by
  rw [display_eq_spelling, toList_spelling, writtenWith]

theorem isQuotation_quoted (text : String) : IsQuotation text.toList (quoted text).toList := by
  rw [toList_quoted]
  exact isQuotation_quotedChars isVisible text.toList

theorem writtenWith_inj {quote : String → List Char}
    (hquote : ∀ text, IsQuotation text.toList (quote text)) {a b : Expr} :
    a.writtenWith quote = b.writtenWith quote ↔ a = b := by
  refine ⟨fun h => ?_, fun h => h ▸ rfl⟩
  have hread := ofWritten?_writtenWith hquote a
  rw [h, ofWritten?_writtenWith hquote b] at hread
  exact (Option.some.inj hread).symm

/-- The written form tells expressions apart: it leads back to the expression, with the quotations that
the printer makes and with any others. -/
theorem written_form_is_unambiguous :
    (∀ e : Expr, ofWritten? e.display.toList = some e) ∧
      (∀ a b : Expr, a.display = b.display ↔ a = b) ∧
      (∀ e : Expr, e.display.toList = e.writtenWith fun text => (quoted text).toList) ∧
      ∀ quote : String → List Char, (∀ text, IsQuotation text.toList (quote text)) →
        ∀ a b : Expr, a.writtenWith quote = b.writtenWith quote ↔ a = b := by
  refine ⟨fun e => ?_, fun a b => ?_, toList_display, fun quote hquote a b => writtenWith_inj hquote⟩
  · rw [toList_display, ofWritten?_writtenWith isQuotation_quoted]
  · rw [← String.toList_inj, toList_display, toList_display, writtenWith_inj isQuotation_quoted]

/-- Quotations in which every character is escaped. -/
private def escapedText (text : String) : List Char := quotedChars (fun _ => false) text.toList

theorem escaped_form_keeps_nesting :
    (∀ text, IsQuotation text.toList (escapedText text)) ∧
      writtenWith escapedText (.concat (.literal "\" | \"") (.concat (.star .empty) (.literal ""))) ≠
        writtenWith escapedText (.concat (.concat (.literal "\" | \"") (.star .empty)) (.literal "")) := by
  have hquote (text : String) : IsQuotation text.toList (escapedText text) :=
    isQuotation_quotedChars _ text.toList
  refine ⟨hquote, fun h => ?_⟩
  have heq := (written_form_is_unambiguous.2.2.2 escapedText hquote _ _).mp h
  simp at heq

end CommittedRegex.Expr
