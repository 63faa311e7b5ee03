import CommittedRegex.Config
import CommittedRegex.Definition.Basic
import CommittedRegex.Toml.Decoder

/-! # Pattern files

A pattern file holds the definition of an expression, the settings to match it with, and texts with
the outcome that is expected of each. Every pattern file can be written as a document, and it is declared
how a decoder reads one: a definition by the name of its kind, with its contents under that name, and the
settings, the cases and the file itself as records that take no other keys than their own. -/
namespace CommittedRegex
open Toml

/-- A text with the expected outcome of its match. -/
structure Case where
  input : String
  expect : Bool
  deriving DecidableEq, Inhabited

structure PatternFile where
  pattern : Definition
  config : Config := {}
  cases : List Case := []

/-! ## Writing -/

/-- A table with one key. -/
def Toml.Value.single (name : String) (value : Value) : Value := .table [(name, value)]

mutual

def Definition.toValue : Definition → Value
  | .empty => .string "empty"
  | .literal text => .single "literal" (.string text)
  | .concat operands => .single "concat" (.array .brackets (Definition.toValues operands))
  | .alternate operands => .single "alternate" (.array .brackets (Definition.toValues operands))
  | .star body => .single "repeat" body.toValue

def Definition.toValues : List Definition → List Value
  | [] => []
  | first :: rest => first.toValue :: Definition.toValues rest

end

/-- The entries that describe the settings; a limit is written if there is one. -/
def Config.toEntries (config : Config) : Entries :=
  let policy := ("zero_width", Value.string config.zeroWidth.name)
  match config.maxSteps with
  | some limit => [policy, ("max_steps", .integer limit)]
  | none => [policy]

def Case.toEntries (c : Case) : Entries :=
  [("input", .string c.input), ("expect", .boolean c.expect)]

def PatternFile.toEntries (file : PatternFile) : Entries :=
  [("pattern", file.pattern.toValue), ("config", .table file.config.toEntries),
    ("case", .array .headers (file.cases.map fun c => .table c.toEntries))]

/-! ## What a decoder is to read -/

section

variable {ε : Type} (decoder : Decoder ε)

/-- The kinds of definitions, where `self` reads the definitions inside. -/
def Definition.variants (self : Value → Except ε Definition) : List (String × Variant ε Definition) :=
  [("empty", .unit .empty),
    ("literal", .newtype fun value => (decoder.text value).map .literal),
    ("concat", .newtype fun value => (decoder.list self value).map .concat),
    ("alternate", .newtype fun value => (decoder.list self value).map .alternate),
    ("repeat", .newtype fun value => (self value).map .star)]

/-- Reads definitions by their kinds, and the definitions inside in the same way. -/
structure Definition.Reader where
  read : Value → Except ε Definition
  unfolds (value : Value) : read value = decoder.variant (Definition.variants decoder read) value

def ZeroWidth.variants : List (String × Variant ε ZeroWidth) :=
  [(guard.name, .unit guard), (faithful.name, .unit faithful)]

def Config.schema : Schema ε Config where
  name := "MatchConfig"
  strict := true
  fields :=
    [("zero_width", fun config value =>
        (decoder.variant ZeroWidth.variants value).map fun zeroWidth => { config with zeroWidth }),
      ("max_steps", fun config value =>
        (decoder.word value).map fun limit => { config with maxSteps := some limit })]
  required := []
  start := {}

def Case.schema : Schema ε Case where
  name := "Case"
  strict := true
  fields :=
    [("input", fun c value => (decoder.text value).map fun input => { c with input }),
      ("expect", fun c value => (decoder.boolean value).map fun expect => { c with expect })]
  required := ["input", "expect"]
  start := default

def PatternFile.schema (definitions : Definition.Reader decoder) : Schema ε PatternFile where
  name := "PatternFile"
  strict := true
  fields :=
    [("pattern", fun file value => (definitions.read value).map fun pattern => { file with pattern }),
      ("config", fun file value =>
        (decoder.record (Config.schema decoder) value).map fun config => { file with config }),
      ("case", fun file value =>
        (decoder.list (decoder.record (Case.schema decoder)) value).map fun cases => { file with cases })]
  required := ["pattern"]
  start := { pattern := .empty }

end

end CommittedRegex
