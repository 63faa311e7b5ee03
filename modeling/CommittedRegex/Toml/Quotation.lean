/-! # Quoted strings of a document

Four ways to quote: with double quotes and escapes or with single quotes and none, on one line or,
with three quotes, on several. Each function takes the text after the opening quotes and gives the
string with what follows the closing ones. -/
namespace CommittedRegex.Toml

abbrev Quotation := Option (String × List Char)

/-- A character that may stand in a comment or, quotes and backslashes aside, in a string. -/
def isPlain (c : Char) : Bool := c = '\t' ∨ (0x20 ≤ c.toNat ∧ c.toNat ≠ 0x7f)

def hexDigit? (c : Char) : Option Nat :=
  if '0' ≤ c ∧ c ≤ '9' then some (c.toNat - '0'.toNat)
  else if 'a' ≤ c ∧ c ≤ 'f' then some (c.toNat - 'a'.toNat + 10)
  else if 'A' ≤ c ∧ c ≤ 'F' then some (c.toNat - 'A'.toNat + 10)
  else none

/-- The character with the code point that the hexadecimal digits give. -/
def scalar? (digits : List Char) : Option Char := do
  let n ← digits.foldlM (fun n c => return 16 * n + (← hexDigit? c)) 0
  if n.isValidChar then some (Char.ofNat n) else none

/-- The character that a one-letter escape stands for. -/
def escaped? : Char → Option Char
  | 'b' => some '\x08'
  | 't' => some '\t'
  | 'n' => some '\n'
  | 'f' => some '\x0c'
  | 'r' => some '\r'
  | '"' => some '"'
  | '\\' => some '\\'
  | _ => none

def basicString (read : List Char) : List Char → Quotation
  | '"' :: cs => some (String.ofList read.reverse, cs)
  | '\\' :: 'u' :: a :: b :: c :: d :: cs => do
    basicString ((← scalar? [a, b, c, d]) :: read) cs
  | '\\' :: 'U' :: a :: b :: c :: d :: e :: f :: g :: h :: cs => do
    basicString ((← scalar? [a, b, c, d, e, f, g, h]) :: read) cs
  | '\\' :: c :: cs => do basicString ((← escaped? c) :: read) cs
  | c :: cs => if isPlain c then basicString (c :: read) cs else none
  | [] => none

def literalString (read : List Char) : List Char → Quotation
  | '\'' :: cs => some (String.ofList read.reverse, cs)
  | c :: cs => if isPlain c then literalString (c :: read) cs else none
  | [] => none

/-- Only blanks stand before the end of the line. -/
def endsLine : List Char → Bool
  | ' ' :: cs => endsLine cs
  | '\t' :: cs => endsLine cs
  | '\n' :: _ => true
  | '\r' :: '\n' :: _ => true
  | _ => false

/-- A string in three double quotes. Line breaks are kept as line feeds; after a backslash at the end
of a line, blanks and line breaks are left out (`skipping`). Up to two quotes may stand before the
closing ones. -/
def longBasicString (read : List Char) (skipping : Bool) : List Char → Quotation
  | '"' :: '"' :: '"' :: '"' :: '"' :: cs =>
    some (String.ofList ('"' :: '"' :: read).reverse, cs)
  | '"' :: '"' :: '"' :: '"' :: cs => some (String.ofList ('"' :: read).reverse, cs)
  | '"' :: '"' :: '"' :: cs => some (String.ofList read.reverse, cs)
  | '\\' :: 'u' :: a :: b :: c :: d :: cs => do
    longBasicString ((← scalar? [a, b, c, d]) :: read) false cs
  | '\\' :: 'U' :: a :: b :: c :: d :: e :: f :: g :: h :: cs => do
    longBasicString ((← scalar? [a, b, c, d, e, f, g, h]) :: read) false cs
  | '\\' :: c :: cs =>
    if endsLine (c :: cs) then longBasicString read true (c :: cs)
    else do longBasicString ((← escaped? c) :: read) false cs
  | '\r' :: '\n' :: cs => longBasicString (if skipping then read else '\n' :: read) skipping cs
  | '\n' :: cs => longBasicString (if skipping then read else '\n' :: read) skipping cs
  | c :: cs =>
    if skipping && (c = ' ' || c = '\t') then longBasicString read true cs
    else if isPlain c then longBasicString (c :: read) false cs
    else none
  | [] => none

def longLiteralString (read : List Char) : List Char → Quotation
  | '\'' :: '\'' :: '\'' :: '\'' :: '\'' :: cs =>
    some (String.ofList ('\'' :: '\'' :: read).reverse, cs)
  | '\'' :: '\'' :: '\'' :: '\'' :: cs => some (String.ofList ('\'' :: read).reverse, cs)
  | '\'' :: '\'' :: '\'' :: cs => some (String.ofList read.reverse, cs)
  | '\r' :: '\n' :: cs => longLiteralString ('\n' :: read) cs
  | '\n' :: cs => longLiteralString ('\n' :: read) cs
  | c :: cs => if isPlain c then longLiteralString (c :: read) cs else none
  | [] => none

/-- The text without the line break that it starts with, if it does. -/
def dropBreak : List Char → List Char
  | '\r' :: '\n' :: cs => cs
  | '\n' :: cs => cs
  | cs => cs

/-- A quoted string of one line, with its quotes. -/
def shortString? : List Char → Quotation
  | '"' :: cs => basicString [] cs
  | '\'' :: cs => literalString [] cs
  | _ => none

/-- Any quoted string, with its quotes. -/
def string? : List Char → Quotation
  | '"' :: '"' :: '"' :: cs => longBasicString [] false (dropBreak cs)
  | '\'' :: '\'' :: '\'' :: cs => longLiteralString [] (dropBreak cs)
  | cs => shortString? cs

end CommittedRegex.Toml
