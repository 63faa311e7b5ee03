/-! # Places, blanks, numerals and lines

A place in a text is the number of UTF-8 bytes before it. An offset inside a character or past the
end is no place, so nothing stands there, not even the empty text; `stop?` finds exactly the words that
stand at an offset. The other parts of a text that are read out of it are blanks at its ends, numerals of
64 bits, and lines. -/
namespace CommittedRegex.Text

/-! ## Byte offsets -/

/-- `offset` is the length of some first part of `text`: it lies on a character boundary. -/
def IsBoundary (text : String) (offset : Nat) : Prop :=
  ∃ before after, text = before ++ after ∧ before.utf8ByteSize = offset

/-- `word` stands in `text` from byte `start` to byte `stop`. -/
def StandsAt (word text : String) (start stop : Nat) : Prop :=
  ∃ before after, text = before ++ (word ++ after) ∧
    before.utf8ByteSize = start ∧ start + word.utf8ByteSize = stop

/-- Where `word` ends if it stands in `text` at byte `start`. -/
def stop? (word text : String) (start : Nat) : Option Nat :=
  if h : (⟨start⟩ : String.Pos.Raw).IsValid text then
    if (text.sliceFrom (text.pos ⟨start⟩ h)).startsWith word then
      some (start + word.utf8ByteSize)
    else none
  else none

theorem isValid_iff_isBoundary {text : String} {offset : Nat} :
    (⟨offset⟩ : String.Pos.Raw).IsValid text ↔ IsBoundary text offset := by
  rw [String.Pos.Raw.isValid_iff_exists_append]
  constructor
  · rintro ⟨before, after, split, size⟩
    exact ⟨before, after, split, by simpa [String.Pos.Raw.ext_iff] using size.symm⟩
  · rintro ⟨before, after, split, size⟩
    exact ⟨before, after, split, by simpa [String.Pos.Raw.ext_iff] using size.symm⟩

private theorem startsWith_iff {word : String} {rest : String.Slice} :
    rest.startsWith word = true ↔ ∃ after, rest.copy = word ++ after := by
  rw [String.Slice.startsWith_string_iff]
  constructor
  · rintro ⟨cs, hcs⟩
    exact ⟨String.ofList cs, by simp [← String.toList_inj, hcs]⟩
  · rintro ⟨after, h⟩
    exact ⟨after.toList, by simp [h]⟩

theorem stop?_eq_some_iff {word text : String} {start stop : Nat} :
    stop? word text start = some stop ↔ StandsAt word text start stop := by
  unfold stop?
  constructor
  · intro h
    split at h
    · rename_i valid
      have splits := (text.pos ⟨start⟩ valid).splits
      split at h
      · rename_i starts
        obtain ⟨after, hafter⟩ := startsWith_iff.mp starts
        rw [hafter] at splits
        refine ⟨_, after, splits.eq_append, ?_, Option.some.inj h⟩
        · simp
      · simp at h
    · simp at h
  · rintro ⟨before, after, split, rfl, rfl⟩
    have valid : (⟨before.utf8ByteSize⟩ : String.Pos.Raw).IsValid text :=
      isValid_iff_isBoundary.mpr ⟨before, word ++ after, split, rfl⟩
    have splits : (text.pos ⟨before.utf8ByteSize⟩ valid).Splits before (word ++ after) :=
      ⟨split, by simp [String.Pos.Raw.ext_iff]⟩
    rw [dif_pos valid, if_pos]
    exact startsWith_iff.mpr ⟨after, splits.copy_sliceFrom_eq⟩

theorem StandsAt.start_le {word text : String} {start stop : Nat}
    (h : StandsAt word text start stop) : start ≤ stop := by
  obtain ⟨_, _, _, _, rfl⟩ := h
  omega

theorem StandsAt.stop_le {word text : String} {start stop : Nat}
    (h : StandsAt word text start stop) : stop ≤ text.utf8ByteSize := by
  obtain ⟨before, after, rfl, rfl, rfl⟩ := h
  simp only [String.utf8ByteSize_append]
  omega

theorem StandsAt.isBoundary_start {word text : String} {start stop : Nat}
    (h : StandsAt word text start stop) : IsBoundary text start := by
  obtain ⟨before, after, split, hstart, -⟩ := h
  exact ⟨before, word ++ after, split, hstart⟩

theorem StandsAt.isBoundary_stop {word text : String} {start stop : Nat}
    (h : StandsAt word text start stop) : IsBoundary text stop := by
  obtain ⟨before, after, split, rfl, rfl⟩ := h
  rw [← String.append_assoc] at split
  exact ⟨before ++ word, after, split, String.utf8ByteSize_append⟩

/-! ## Blank characters -/

/-- The Unicode property White_Space. -/
def isBlank (c : Char) : Bool :=
  let n := c.toNat
  (9 ≤ n && n ≤ 13) || n == 0x20 || n == 0x85 || n == 0xa0 || n == 0x1680 ||
    (0x2000 ≤ n && n ≤ 0x200a) || n == 0x2028 || n == 0x2029 || n == 0x202f || n == 0x205f ||
    n == 0x3000

/-- The text without the blank characters at its two ends. -/
def trim (cs : List Char) : List Char :=
  ((cs.dropWhile isBlank).reverse.dropWhile isBlank).reverse

/-! ## Numerals

A numeral is one or more decimal digits, with a plus sign before them or not, of a value that fits in
64 bits without sign. -/

def maxWord : Nat := 18446744073709551615

/-- The value of decimal digits behind digits of the given value, unless it leaves the 64 bits. -/
def wordAfter? (value : Nat) : List Char → Option Nat
  | [] => some value
  | c :: cs =>
    let next := value * 10 + (c.toNat - '0'.toNat)
    if c.isDigit ∧ next ≤ maxWord then wordAfter? next cs else none

/-- The digits of a numeral without its sign. -/
def unsigned : List Char → List Char
  | '+' :: cs => cs
  | cs => cs

/-- The value of a numeral of 64 bits. -/
def word? (cs : List Char) : Option Nat :=
  match unsigned cs with
  | [] => none
  | digits => wordAfter? 0 digits

/-! ## Lines

A line ends with a line feed or with the text. A carriage return right before the line feed belongs to
the end of the line. -/

/-- The line of the characters taken so far, latest first, when a line feed ends it. -/
def endedLine : List Char → String
  | '\r' :: taken => String.ofList taken.reverse
  | taken => String.ofList taken.reverse

/-- The lines of a text that goes on after the characters `taken`, on top of the lines before. -/
def linesOnto (before : List String) (taken : List Char) : List Char → List String
  | [] => if taken.isEmpty then before else String.ofList taken.reverse :: before
  | '\n' :: cs => linesOnto (endedLine taken :: before) [] cs
  | c :: cs => linesOnto before (c :: taken) cs

/-- The lines of a text in order. -/
def lines (text : String) : List String := (linesOnto [] [] text.toList).reverse

end CommittedRegex.Text
