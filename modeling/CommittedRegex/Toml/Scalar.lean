import CommittedRegex.Toml.Digits
import CommittedRegex.Toml.Value

/-! # Unquoted values of a document

Numbers, booleans, dates and times are written without quotes. Each is recognized on the whole word,
the longest run of characters that may occur in such a value. -/
namespace CommittedRegex.Toml

def isWordChar (c : Char) : Bool :=
  c.isAlphanum || c = '_' || c = '+' || c = '-' || c = '.' || c = ':'

/-- The sign of a number, and the rest. -/
def signed : List Char → Bool × List Char
  | '-' :: cs => (true, cs)
  | '+' :: cs => (false, cs)
  | cs => (false, cs)

/-- Decimal digits without a needless zero in front. -/
def decimalRun? (cs : List Char) : Option (List Char) :=
  match cs with
  | '0' :: _ :: _ => none
  | _ => digitRun? Char.isDigit cs

/-- An integer within 64 bits. -/
def integerWithin? (negative : Bool) (magnitude : Nat) : Option Value :=
  let value : Int := if negative then -magnitude else magnitude
  if -9223372036854775808 ≤ value ∧ value ≤ 9223372036854775807 then some (.integer value) else none

/-- An integer: decimal with a sign or not, or with a prefix that tells its base. -/
def integer? : List Char → Option Value
  | '0' :: 'x' :: cs => do
    integerWithin? false (ofDigits 16 (← digitRun? (fun c => (hexDigit? c).isSome) cs))
  | '0' :: 'o' :: cs => do
    integerWithin? false (ofDigits 8 (← digitRun? (fun c => '0' ≤ c && c ≤ '7') cs))
  | '0' :: 'b' :: cs => do
    integerWithin? false (ofDigits 2 (← digitRun? (fun c => c = '0' || c = '1') cs))
  | cs => do
    let (negative, cs) := signed cs
    integerWithin? negative (ofDigits 10 (← decimalRun? cs))

/-- The size of an exponent whose first digits stand for `size`. Digits count until they stand for 65536
or more; those after that are left out. -/
def exponentSize (size : Nat) : List Char → Nat
  | [] => size
  | c :: cs => if size < 65536 then exponentSize (10 * size + digitValue c) cs else size

/-- The exponent of a floating point number. -/
def exponent? (cs : List Char) : Option Int := do
  let (negative, cs) := signed cs
  let size := exponentSize 0 (← digitRun? Char.isDigit cs)
  return if negative then -size else size

/-- A floating point number with a fraction, an exponent or both. One that is too large for the format
is refused, but too large a negative one counts as infinite. -/
def decimal? (cs : List Char) : Option Value := do
  let (negative, cs) := signed cs
  let isMark (c : Char) : Bool := c = 'e' || c = 'E'
  let mantissa := cs.takeWhile (! isMark ·)
  let exponent ← match cs.dropWhile (! isMark ·) with
    | [] => if cs.contains '.' then some 0 else none
    | _ :: power => exponent? power
  let whole ← decimalRun? (mantissa.takeWhile (· ≠ '.'))
  let fraction ← match mantissa.dropWhile (· ≠ '.') with
    | [] => some []
    | _ :: places => digitRun? Char.isDigit places
  let value := Binary64.ofDecimal negative (ofDigits 10 (whole ++ fraction))
    (exponent - (fraction.length : Int))
  if value = .infinite false then none else some (.float value)

def special? (cs : List Char) : Option Value :=
  let (negative, cs) := signed cs
  if cs = ['i', 'n', 'f'] then some (.float (.infinite negative))
  else if cs = ['n', 'a', 'n'] then some (.float .nan)
  else none

/-- The number that two decimal digits stand for. -/
def twoDigits? (a b : Char) : Option Nat :=
  if a.isDigit && b.isDigit then some (ofDigits 10 [a, b]) else none

def monthDays (year month : Nat) : Nat :=
  if month = 2 then
    if year % 4 = 0 ∧ (year % 100 ≠ 0 ∨ year % 400 = 0) then 29 else 28
  else if month = 4 ∨ month = 6 ∨ month = 9 ∨ month = 11 then 30
  else 31

/-- A date of the calendar in front of the text; gives the rest. -/
def afterDate? : List Char → Option (List Char)
  | y₁ :: y₂ :: y₃ :: y₄ :: '-' :: m₁ :: m₂ :: '-' :: d₁ :: d₂ :: rest => do
    let year := 100 * (← twoDigits? y₁ y₂) + (← twoDigits? y₃ y₄)
    let month ← twoDigits? m₁ m₂
    let day ← twoDigits? d₁ d₂
    if 1 ≤ month ∧ month ≤ 12 ∧ 1 ≤ day ∧ day ≤ monthDays year month then some rest else none
  | _ => none

/-- A time of the day, to fractions of a second, in front of the text; gives the rest. The last
second of a day may be a leap second. -/
def afterTime? : List Char → Option (List Char)
  | h₁ :: h₂ :: ':' :: m₁ :: m₂ :: ':' :: s₁ :: s₂ :: rest => do
    let hour ← twoDigits? h₁ h₂
    let minute ← twoDigits? m₁ m₂
    let second ← twoDigits? s₁ s₂
    if hour ≤ 23 ∧ minute ≤ 59 ∧ second ≤ 60 then
      match rest with
      | '.' :: c :: places => if c.isDigit then some (places.dropWhile Char.isDigit) else none
      | rest => some rest
    else none
  | _ => none

/-- A distance from universal time, if there is one. -/
def isOffset : List Char → Bool
  | [] => true
  | ['Z'] => true
  | ['z'] => true
  | [sign, h₁, h₂, ':', m₁, m₂] =>
    (sign = '+' || sign = '-') && (twoDigits? h₁ h₂).any (· ≤ 23) && (twoDigits? m₁ m₂).any (· ≤ 59)
  | _ => false

/-- A date, a time, or both with a letter or a space between them and an offset or none behind. -/
def isDatetime (cs : List Char) : Bool :=
  match afterDate? cs with
  | some [] => true
  | some (c :: rest) =>
    (c = 'T' || c = 't' || c = ' ') &&
      match afterTime? rest with
      | some offset => isOffset offset
      | none => false
  | none => afterTime? cs = some []

def ofWord? (cs : List Char) : Option Value :=
  if cs = "true".toList then some (.boolean true)
  else if cs = "false".toList then some (.boolean false)
  else if isDatetime cs then some .datetime
  else (decimal? cs).or ((special? cs).or (integer? cs))

/-- The word in front of a text with what follows it. A date is followed by a time after a space. -/
def splitWord (cs : List Char) : List Char × List Char :=
  let word := cs.takeWhile isWordChar
  match afterDate? word, cs.dropWhile isWordChar with
  | some [], ' ' :: c :: rest =>
    if c.isDigit then
      (word ++ ' ' :: (c :: rest).takeWhile isWordChar, (c :: rest).dropWhile isWordChar)
    else (word, ' ' :: c :: rest)
  | _, rest => (word, rest)

/-- The unquoted value in front of a text. -/
def unquoted? (cs : List Char) : Option (Value × List Char) :=
  let (word, rest) := splitWord cs
  (ofWord? word).map fun value => (value, rest)

end CommittedRegex.Toml
