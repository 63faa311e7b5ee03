import CommittedRegex.Toml.Scalar
import CommittedRegex.Toml.Table

/-! # Reading a document

A text is taken apart into lines, and the lines are put together to tables. Each step takes something
off the front of the text; a loop gets the text itself to count its rounds by, since a round takes one
character at least. Values may be nested 79 deep, and a dotted key may have 79 parts. -/
namespace CommittedRegex.Toml

/-- The text without the spaces and tabs in front. -/
def dropSpaces (cs : List Char) : List Char := cs.dropWhile fun c => c = ' ' || c = '\t'

/-- The text without the blanks, line breaks and comments in front. -/
def dropBreaks (inComment : Bool) : List Char → Option (List Char)
  | [] => some []
  | '\n' :: cs => dropBreaks false cs
  | '\r' :: '\n' :: cs => dropBreaks false cs
  | c :: cs =>
    if inComment then if isPlain c then dropBreaks true cs else none
    else if c = ' ' || c = '\t' then dropBreaks false cs
    else if c = '#' then dropBreaks true cs
    else some (c :: cs)

/-- The text after the end of the line, if nothing but blanks and a comment come before it. -/
def afterLine (inComment : Bool) : List Char → Option (List Char)
  | [] => some []
  | '\n' :: cs => some cs
  | '\r' :: '\n' :: cs => some cs
  | c :: cs =>
    if inComment then if isPlain c then afterLine true cs else none
    else if c = ' ' || c = '\t' then afterLine false cs
    else if c = '#' then afterLine true cs
    else none

def isKeyChar (c : Char) : Bool := c.isAlphanum || c = '_' || c = '-'

/-- One part of a key. -/
def keyPart? (cs : List Char) : Option (String × List Char) :=
  match cs.takeWhile isKeyChar with
  | [] => shortString? cs
  | word => some (String.ofList word, cs.dropWhile isKeyChar)

/-- The parts of a dotted key, latest first, on top of those taken before. -/
def keyParts? (taken : List String) : (rounds : List Char) → List Char → Option (List String × List Char)
  | [], _ => none
  | _ :: rounds, cs => do
    let (part, cs) ← keyPart? (dropSpaces cs)
    match dropSpaces cs with
    | '.' :: cs => keyParts? (part :: taken) rounds cs
    | cs => return (part :: taken, cs)

def mostParts : Nat := 79

/-- A key, with the path of tables that it leads through. -/
def key? (cs : List Char) : Option ((List String × String) × List Char) := do
  let (parts, cs) ← keyParts? [] cs cs
  match parts with
  | last :: path => if parts.length ≤ mostParts then return ((path.reverse, last), cs) else none
  | [] => none

/-- The items of an array, after its opening bracket, on top of those taken before. -/
def items? (value? : List Char → Option (Value × List Char)) (taken : List Value) :
    (rounds : List Char) → List Char → Option (List Value × List Char)
  | [], _ => none
  | _ :: rounds, cs => do
    match ← dropBreaks false cs with
    | ']' :: cs => return (taken.reverse, cs)
    | cs =>
      let (value, cs) ← value? cs
      match ← dropBreaks false cs with
      | ',' :: cs => items? value? (value :: taken) rounds cs
      | ']' :: cs => return ((value :: taken).reverse, cs)
      | _ => none

/-- A key with its value, which follows an equals sign. -/
def pair? (value? : List Char → Option (Value × List Char)) (cs : List Char) :
    Option ((List String × String × Value) × List Char) := do
  let ((path, key), cs) ← key? cs
  match cs with
  | '=' :: cs =>
    let (value, cs) ← value? (dropSpaces cs)
    return ((path, key, value), cs)
  | _ => none

/-- The pairs of an inline table that is not empty, on top of those taken before. -/
def pairs? (value? : List Char → Option (Value × List Char)) (taken : List (List String × String × Value)) :
    (rounds : List Char) → List Char → Option (List (List String × String × Value) × List Char)
  | [], _ => none
  | _ :: rounds, cs => do
    let (pair, cs) ← pair? value? cs
    match dropSpaces cs with
    | ',' :: cs => pairs? value? (pair :: taken) rounds cs
    | '}' :: cs => return ((pair :: taken).reverse, cs)
    | _ => none

/-- The largest depth of arrays and inline tables in each other. -/
def deepest : Nat := 79

/-- A value in which arrays and inline tables are nested at most `depth` deep. -/
def value? : (depth : Nat) → List Char → Option (Value × List Char)
  | _, '"' :: cs => (string? ('"' :: cs)).map fun (text, cs) => (.string text, cs)
  | _, '\'' :: cs => (string? ('\'' :: cs)).map fun (text, cs) => (.string text, cs)
  | 0, '[' :: _ => none
  | 0, '{' :: _ => none
  | depth + 1, '[' :: cs => do
    let (items, cs) ← items? (value? depth) [] cs cs
    return (.array .brackets items, cs)
  | depth + 1, '{' :: cs => do
    match dropSpaces cs with
    | '}' :: cs => return (.table [], cs)
    | cs =>
      let (pairs, cs) ← pairs? (value? depth) [] cs cs
      return (.table (← inlineTable? pairs), cs)
  | _, cs => unquoted? cs

/-- The line in front of a text that does not start with blanks. -/
def line? : List Char → Option (Line × List Char)
  | '[' :: '[' :: cs => do
    match ← key? cs with
    | ((path, key), ']' :: ']' :: cs) => return (.element path key, ← afterLine false cs)
    | _ => none
  | '[' :: cs => do
    match ← key? cs with
    | ((path, key), ']' :: cs) => return (.header path key, ← afterLine false cs)
    | _ => none
  | cs => do
    let ((path, key, value), cs) ← pair? (value? deepest) cs
    return (.entry path key value, ← afterLine false cs)

/-- The lines of a text, on top of those taken before. -/
def lines? (taken : List Line) : (rounds : List Char) → List Char → Option (List Line)
  | [], cs => do
    match ← dropBreaks false cs with
    | [] => return taken.reverse
    | _ => none
  | _ :: rounds, cs => do
    match ← dropBreaks false cs with
    | [] => return taken.reverse
    | cs =>
      let (line, cs) ← line? cs
      lines? (line :: taken) rounds cs

/-- The text without the mark of its byte order. -/
def dropMark : List Char → List Char
  | '\ufeff' :: cs => cs
  | cs => cs

/-- The document that a text holds, unless it is no document. -/
def ofText? (text : String) : Option Entries := do
  let cs := dropMark text.toList
  ofLines? (← lines? [] cs cs)

end CommittedRegex.Toml
