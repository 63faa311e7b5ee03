import CommittedRegex.Text.Visible

/-! # Quoted text

A text stands between double quotes. The quote and the backslash are written with a backslash before
them, four control characters by a letter or digit, any other hidden character by its code point in
hexadecimal, and all else as itself. -/
namespace CommittedRegex.Text

def hexDigits (n : Nat) : List Char := Nat.toDigits 16 n

/-- The written form of one character, where `visible` says what may stand for itself. -/
def escape (visible : Char → Bool) (c : Char) : List Char :=
  if c = '\x00' then ['\\', '0']
  else if c = '\t' then ['\\', 't']
  else if c = '\r' then ['\\', 'r']
  else if c = '\n' then ['\\', 'n']
  else if c = '"' then ['\\', '"']
  else if c = '\\' then ['\\', '\\']
  else if visible c then [c]
  else ['\\', 'u', '\x7b'] ++ hexDigits c.toNat ++ ['\x7d']

/-- The characters of a quoted text. -/
def quotedChars (visible : Char → Bool) (text : List Char) : List Char :=
  '"' :: text.flatMap (escape visible) ++ ['"']

/-- Writes a quoted text after `before`. -/
def appendQuoted (before text : String) : String :=
  (text.foldl (fun written c => (escape isVisible c).foldl String.push written) (before.push '"')).push '"'

def quoted (text : String) : String := appendQuoted "" text

private theorem toList_foldl_push (cs : List Char) (s : String) :
    (cs.foldl String.push s).toList = s.toList ++ cs := by
  induction cs generalizing s with
  | nil => simp
  | cons c cs ih => simp [ih]

private theorem toList_foldl_escape (cs : List Char) (s : String) :
    (cs.foldl (fun written c => (escape isVisible c).foldl String.push written) s).toList =
      s.toList ++ cs.flatMap (escape isVisible) := by
  induction cs generalizing s with
  | nil => simp
  | cons c cs ih => simp [ih, toList_foldl_push]

theorem toList_appendQuoted (before text : String) :
    (appendQuoted before text).toList = before.toList ++ quotedChars isVisible text.toList := by
  simp [appendQuoted, quotedChars, String.foldl_eq_foldl_toList, toList_foldl_escape]

@[simp] theorem toList_quoted (text : String) :
    (quoted text).toList = quotedChars isVisible text.toList := by
  simp [quoted, toList_appendQuoted]

end CommittedRegex.Text
