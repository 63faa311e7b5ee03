import CommittedRegex.Text.Quoted
import CommittedRegex.Toml.Quotation

/-! # Quoted text is read back

How much of a text is escaped when it is quoted depends on the characters that count as visible.
`IsQuotation` leaves that open: a quote and a backslash are escaped, and any other character stands for
itself or is escaped by its letter or its code point, as it may be. Whichever way was taken, reading as
far as the closing quote gives the text, and leaves what stands behind it. -/
namespace CommittedRegex.Text

/-- The letters that stand for a character behind a backslash. -/
def letterOf? : Char → Option Char
  | '\x00' => some '0'
  | '\t' => some 't'
  | '\r' => some 'r'
  | '\n' => some 'n'
  | _ => none

/-- The ways to write a character between quotes. -/
inductive Spells : Char → List Char → Prop
  | quote : Spells '"' ['\\', '"']
  | backslash : Spells '\\' ['\\', '\\']
  | itself {c : Char} (hquote : c ≠ '"') (hbackslash : c ≠ '\\') : Spells c [c]
  | letter {c letter : Char} (h : letterOf? c = some letter) : Spells c ['\\', letter]
  | codePoint {c : Char} (hquote : c ≠ '"') (hbackslash : c ≠ '\\') :
      Spells c (['\\', 'u', '\x7b'] ++ hexDigits c.toNat ++ ['\x7d'])

/-- The ways to write a text between quotes, one character after the other. -/
inductive SpellsAll : List Char → List Char → Prop
  | nil : SpellsAll [] []
  | cons {c : Char} {text written body : List Char} :
      Spells c written → SpellsAll text body → SpellsAll (c :: text) (written ++ body)

def IsQuotation (text written : List Char) : Prop :=
  ∃ body, SpellsAll text body ∧ written = '"' :: body ++ ['"']

theorem spells_escape (visible : Char → Bool) (c : Char) : Spells c (escape visible c) := by
  unfold escape
  split
  · rename_i h
    exact .letter (by simp [h, letterOf?])
  split
  · rename_i h
    exact .letter (by simp [h, letterOf?])
  split
  · rename_i h
    exact .letter (by simp [h, letterOf?])
  split
  · rename_i h
    exact .letter (by simp [h, letterOf?])
  split
  · rename_i h
    exact h ▸ .quote
  rename_i hquote
  split
  · rename_i h
    exact h ▸ .backslash
  rename_i hbackslash
  split
  · exact .itself hquote hbackslash
  · exact .codePoint hquote hbackslash

/-- Whatever is visible, a quoted text is a quotation of it. -/
theorem isQuotation_quotedChars (visible : Char → Bool) (text : List Char) :
    IsQuotation text (quotedChars visible text) := by
  refine ⟨text.flatMap (escape visible), ?_, rfl⟩
  induction text with
  | nil => exact .nil
  | cons c text ih => exact .cons (spells_escape visible c) ih

/-- What has been read of a character that is escaped. -/
inductive Escape
  | nothing
  | backslash
  /-- The letter that announces a code point. -/
  | announced
  /-- The opening brace of a code point and digits of the given value. -/
  | digits (value : Nat)

/-- The character that a letter behind a backslash stands for. -/
def unescape? : Char → Option Char
  | '0' => some '\x00'
  | 't' => some '\t'
  | 'r' => some '\r'
  | 'n' => some '\n'
  | '"' => some '"'
  | '\\' => some '\\'
  | _ => none

/-- The text up to the closing quote, on top of the characters taken before, latest first; and what stands
behind that quote. -/
def readQuoted (taken : List Char) : Escape → List Char → Option (List Char × List Char)
  | _, [] => none
  | .nothing, c :: cs =>
    if c = '"' then some (taken.reverse, cs)
    else if c = '\\' then readQuoted taken .backslash cs
    else readQuoted (c :: taken) .nothing cs
  | .backslash, c :: cs =>
    if c = 'u' then readQuoted taken .announced cs
    else
      match unescape? c with
      | some meant => readQuoted (meant :: taken) .nothing cs
      | none => none
  | .announced, c :: cs => if c = '\x7b' then readQuoted taken (.digits 0) cs else none
  | .digits value, c :: cs =>
    if c = '\x7d' then readQuoted (Char.ofNat value :: taken) .nothing cs
    else
      match Toml.hexDigit? c with
      | some digit => readQuoted taken (.digits (16 * value + digit)) cs
      | none => none

theorem length_of_readQuoted {taken cs text rest : List Char} {escape : Escape}
    (h : readQuoted taken escape cs = some (text, rest)) : rest.length < cs.length := by
  fun_induction readQuoted taken escape cs <;> grind

private theorem readQuoted_digit (taken cs : List Char) (value : Nat) {digit : Nat} (h : digit < 16) :
    readQuoted taken (.digits value) (digit.digitChar :: cs) =
      readQuoted taken (.digits (16 * value + digit)) cs := by
  have table : ∀ d : Fin 16, d.val.digitChar ≠ '\x7d' ∧ Toml.hexDigit? d.val.digitChar = some d.val := by
    decide
  obtain ⟨hbrace, hdigit⟩ := table ⟨digit, h⟩
  simp only at hbrace hdigit
  simp [readQuoted, hbrace, hdigit]

private theorem readQuoted_hexDigits (taken cs : List Char) (n : Nat) :
    readQuoted taken (.digits 0) (hexDigits n ++ cs) = readQuoted taken (.digits n) cs := by
  unfold hexDigits
  induction n using Nat.strongRecOn generalizing cs with
  | _ n ih =>
    rw [Nat.toDigits_eq_if (by decide)]
    split
    · rename_i hlt
      simpa using readQuoted_digit taken cs 0 hlt
    · rename_i hge
      have value : 16 * (n / 16) + n % 16 = n := Nat.div_add_mod n 16
      rw [List.append_assoc, ih _ (by omega)]
      simpa [value] using readQuoted_digit taken cs (n / 16) (Nat.mod_lt n (by decide))

theorem readQuoted_spells {c : Char} {written taken cs : List Char} (h : Spells c written) :
    readQuoted taken .nothing (written ++ cs) = readQuoted (c :: taken) .nothing cs := by
  cases h with
  | quote => simp [readQuoted, unescape?]
  | backslash => simp [readQuoted, unescape?]
  | itself hquote hbackslash => simp [readQuoted, hquote, hbackslash]
  | letter h =>
    unfold letterOf? at h
    split at h <;> cases h <;> simp [readQuoted, unescape?]
  | codePoint hquote hbackslash =>
    have digits := readQuoted_hexDigits taken ('\x7d' :: cs) c.toNat
    simp [readQuoted, digits, Char.ofNat_toNat]

theorem readQuoted_spellsAll {text body : List Char} (h : SpellsAll text body) (taken rest : List Char) :
    readQuoted taken .nothing (body ++ '"' :: rest) = some (taken.reverse ++ text, rest) := by
  induction h generalizing taken with
  | nil => simp [readQuoted]
  | cons spells _ ih =>
    rw [List.append_assoc, readQuoted_spells spells, ih]
    simp

end CommittedRegex.Text
