import CommittedRegex.Toml.Quotation

/-! # Runs of digits

Digits may be grouped by single underscores. A run is read by halves, which are joined with one
multiplication, so that a run of many digits takes few operations on large numbers;
`ofDigits_eq_foldl` says that the result is the one that reading digit by digit would give. -/
namespace CommittedRegex.Toml

/-- Digits, at least one, with single underscores between two of them allowed. -/
def isDigitRun (isDigit : Char → Bool) : List Char → Bool
  | [] => false
  | [c] => isDigit c
  | c :: '_' :: cs => isDigit c && isDigitRun isDigit cs
  | c :: cs => isDigit c && isDigitRun isDigit cs

/-- The digits of a run without the underscores. -/
def digitRun? (isDigit : Char → Bool) (cs : List Char) : Option (List Char) :=
  if isDigitRun isDigit cs then some (cs.filter (· ≠ '_')) else none

def digitValue (c : Char) : Nat := (hexDigit? c).getD 0

/-- The number that digits stand for behind digits that stand for `value`. -/
def appended (base value : Nat) (digits : List Char) : Nat :=
  digits.foldl (fun n c => base * n + digitValue c) value

/-- The number that the first `2 ^ height` digits stand for, the factor by which they push up what
stands in front of them, and the digits behind them. -/
def leading (base : Nat) : (height : Nat) → List Char → Nat × Nat × List Char
  | 0, [] => (0, 1, [])
  | 0, c :: cs => (digitValue c, base, cs)
  | height + 1, cs =>
    let (high, highFactor, cs) := leading base height cs
    let (low, lowFactor, cs) := leading base height cs
    (lowFactor * high + low, highFactor * lowFactor, cs)

def ofDigits (base : Nat) (digits : List Char) : Nat :=
  (leading base (digits.length.log2 + 1) digits).1

/-- The digits that `leading` takes, apart from those that it leaves. -/
private theorem exists_leading (base height : Nat) (cs : List Char) :
    ∃ front, cs = front ++ (leading base height cs).2.2 ∧
      (front.length = Nat.pow 2 height ∨ (leading base height cs).2.2 = []) ∧
      ∀ value, appended base value front =
        (leading base height cs).2.1 * value + (leading base height cs).1 := by
  induction height generalizing cs with
  | zero =>
    cases cs with
    | nil => exact ⟨[], rfl, .inr rfl, fun value => by simp [appended, leading]⟩
    | cons c cs => exact ⟨[c], rfl, .inl rfl, fun value => by simp [appended, leading]⟩
  | succ height ih =>
    obtain ⟨front, hfront, hlength, hvalue⟩ := ih cs
    obtain ⟨back, hback, hlength', hvalue'⟩ := ih (leading base height cs).2.2
    refine ⟨front ++ back, ?_, ?_, fun value => ?_⟩
    · rw [List.append_assoc]
      exact hfront.trans (congrArg (front ++ ·) hback)
    · rcases hlength with hlength | hnil
      · rcases hlength' with hlength' | hnil
        · left
          have : Nat.pow 2 (height + 1) = Nat.pow 2 height * 2 := rfl
          rw [List.length_append]
          omega
        · exact .inr hnil
      · right
        have hempty := hback
        rw [hnil] at hempty
        exact (List.append_eq_nil_iff.1 hempty.symm).2 ▸ by simp only [leading, hnil]
    · have happend : appended base value (front ++ back) =
          appended base (appended base value front) back := List.foldl_append
      rw [happend, hvalue', hvalue]
      simp only [leading, Nat.mul_add]
      rw [← Nat.mul_assoc, Nat.mul_comm (leading base height (leading base height cs).2.2).2.1
        (leading base height cs).2.1, Nat.add_assoc]

/-- Reading by halves gives what reading digit by digit does. -/
theorem ofDigits_eq_foldl (base : Nat) (digits : List Char) :
    ofDigits base digits = digits.foldl (fun n c => base * n + digitValue c) 0 := by
  obtain ⟨front, hfront, hlength, hvalue⟩ := exists_leading base (digits.length.log2 + 1) digits
  have hnil : (leading base (digits.length.log2 + 1) digits).2.2 = [] := by
    rcases hlength with hlength | hnil
    · have hle := congrArg List.length hfront
      have hlt : digits.length < Nat.pow 2 (digits.length.log2 + 1) := Nat.lt_log2_self
      rw [List.length_append] at hle
      omega
    · exact hnil
  rw [hnil, List.append_nil] at hfront
  have hzero := hvalue 0
  rw [← hfront] at hzero
  simpa [appended, ofDigits] using hzero.symm

end CommittedRegex.Toml
