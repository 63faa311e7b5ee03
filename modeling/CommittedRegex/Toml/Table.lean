import CommittedRegex.Toml.Value

/-! # Putting tables together

The lines of a document name the places that they fill. A table may be filled from several places, but
only as long as nobody has opened it: a header opens the table that it names, the tables on the way
there are implied and may still be opened or extended, and a table that a dotted key has made may be
extended by dotted keys alone. Entries stay in the order in which they were first put; a table that is
opened after it was implied goes to the end. -/
namespace CommittedRegex.Toml

/-- How a table came to be. -/
inductive Standing
  /-- By its header, as an element of an array of tables, or as the whole document. -/
  | opened
  /-- On the way to a table that was opened. -/
  | implied
  /-- By a dotted key. -/
  | dotted
  deriving DecidableEq, Inhabited

/-- What stands under a key while a document is put together. -/
inductive Node
  | value (value : Value)
  | table (standing : Standing) (entries : List (String × Node))
  /-- An array of tables, the latest one first. -/
  | tables (elements : List (List (String × Node)))
  deriving Inhabited

abbrev Nodes := List (String × Node)

mutual

def Node.toValue : Node → Value
  | .value value => value
  | .table _ entries => .table (toEntries entries)
  | .tables elements => .array .headers (toTables elements [])

def toEntries : List (String × Node) → Entries
  | [] => []
  | entry :: rest => (entry.1, entry.2.toValue) :: toEntries rest

/-- The finished elements of an array of tables, in the order of the document. -/
def toTables : List (List (String × Node)) → List Value → List Value
  | [], later => later
  | element :: earlier, later => toTables earlier (.table (toEntries element) :: later)

end

namespace Nodes

/-- Replaces what stands under a key, or puts it at the end. -/
def set (nodes : Nodes) (key : String) (node : Node) : Nodes :=
  if nodes.any (fun entry => entry.1 == key) then
    nodes.map fun entry => if entry.1 == key then (key, node) else entry
  else nodes ++ [(key, node)]

/-- Changes the table that the path leads to; tables that are missing on the way are made with the
given standing. A dotted key may not pass through a table that was opened, and nothing leads through a
plain value. -/
def update (made : Standing) (change : Standing → Nodes → Option Nodes) :
    (path : List String) → Standing → Nodes → Option Nodes
  | [], standing, nodes => change standing nodes
  | key :: path, _, nodes =>
    match nodes.lookup key with
    | none => do return nodes.set key (.table made (← update made change path made []))
    | some (.value _) => none
    | some (.table standing inner) =>
      if made = .dotted ∧ standing = .opened then none
      else do return nodes.set key (.table standing (← update made change path standing inner))
    | some (.tables []) => none
    | some (.tables (latest :: earlier)) => do
      return nodes.set key (.tables ((← update made change path .opened latest) :: earlier))

/-- The entries of the table that the path leads to, none if it is not there. -/
def follow : (path : List String) → Nodes → Nodes
  | [], nodes => nodes
  | key :: path, nodes =>
    match nodes.lookup key with
    | some (.table _ inner) => follow path inner
    | some (.tables (latest :: _)) => follow path latest
    | _ => []

/-- Puts a value under a dotted key of a table that is open. -/
def put (nodes : Nodes) (path : List String) (key : String) (value : Value) : Option Nodes :=
  update .dotted (fun standing inner =>
    if path ≠ [] ∧ standing ≠ .dotted then none
    else if (inner.lookup key).isSome then none
    else some (inner ++ [(key, .value value)])) path .opened nodes

end Nodes

inductive Line
  /-- A value under a key, which may be dotted. -/
  | entry (path : List String) (key : String) (value : Value)
  | header (path : List String) (key : String)
  | element (path : List String) (key : String)

/-- The table that the next entries go to. -/
inductive Place
  | whole
  | table (path : List String) (key : String)
  | element (path : List String) (key : String)

/-- A document under construction: the finished part, the table at hand and its place. -/
structure Draft where
  root : Nodes
  current : Nodes
  place : Place

namespace Draft

def blank : Draft := ⟨[], [], .whole⟩

/-- Puts the table at hand into its place. -/
def close (draft : Draft) : Option Nodes :=
  match draft.place with
  | .whole => some draft.current
  | .table path key =>
    Nodes.update .implied (fun _ inner =>
      if (inner.lookup key).isSome then none
      else some (inner ++ [(key, .table .opened draft.current)])) path .opened draft.root
  | .element path key =>
    Nodes.update .implied (fun _ inner =>
      match inner.lookup key with
      | some (.tables elements) => some (inner.set key (.tables (draft.current :: elements)))
      | _ => none) path .opened draft.root

/-- Opens a table. An implied table is taken out of its place, to come back at the end. -/
def openTable (root : Nodes) (path : List String) (key : String) : Option Draft := do
  let opened ← Nodes.update .implied (fun _ inner =>
    match inner.lookup key with
    | none => some inner
    | some (.table .implied _) => some (inner.filter fun entry => entry.1 != key)
    | some _ => none) path .opened root
  let contents :=
    match (Nodes.follow path root).lookup key with
    | some (.table _ inner) => inner
    | _ => []
  return ⟨opened, contents, .table path key⟩

/-- Opens a new element of an array of tables, which is made if it is missing. -/
def openElement (root : Nodes) (path : List String) (key : String) : Option Draft := do
  let opened ← Nodes.update .implied (fun _ inner =>
    match inner.lookup key with
    | none => some (inner ++ [(key, .tables [])])
    | some (.tables _) => some inner
    | some _ => none) path .opened root
  return ⟨opened, [], .element path key⟩

def write (draft : Draft) : Line → Option Draft
  | .entry path key value => do
    return { draft with current := ← draft.current.put path key value }
  | .header path key => do openTable (← draft.close) path key
  | .element path key => do openElement (← draft.close) path key

end Draft

/-- The document that the lines make up, if they agree with each other. -/
def ofLines? (lines : List Line) : Option Entries := do
  let draft ← lines.foldlM Draft.write .blank
  return toEntries (← draft.close)

/-- The entries of an inline table with the given keys and values. -/
def inlineTable? (entries : List (List String × String × Value)) : Option Entries := do
  let nodes ← entries.foldlM (fun (nodes : Nodes) (path, key, value) => nodes.put path key value) []
  return toEntries nodes

end CommittedRegex.Toml
