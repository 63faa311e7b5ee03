import CommittedRegex.Binary64.Shortest
import CommittedRegex.Text.Quoted
import CommittedRegex.Toml.Decoder
import CommittedRegex.Toml.Document

/-! # A decoder that runs

Each value is read for what it says. A variant is given by its name, or by a table with one key; a record
by a table, or by an array that gives the fields in their order. The first thing that is wrong decides, and
it is said in which way it is wrong. -/
namespace CommittedRegex.Toml

/-! ## What can be wrong -/

/-- Why a value cannot be read. -/
inductive Fault
  /-- The value has a type that cannot stand here. -/
  | wrongType (found : Value) (expected : String)
  | outOfRange (found : Int) (expected : String)
  /-- The list is too short for a record. -/
  | tooShort (length : Nat) (expected : String)
  | unknownField (name : String) (known : List String)
  | missingField (name : String)
  | unknownVariant (name : String) (known : List String)
  /-- Neither a name nor a table can be read as a variant. -/
  | noVariant
  /-- The table that should name a variant is empty. -/
  | nothingNamed
  /-- The table that should name a variant has several keys. -/
  | severalNamed
  /-- The variant needs a value, and only its name is there. -/
  | valueNeeded
  /-- The variant has no value, and a table or list with contents is there. -/
  | contentsGiven
  /-- The variant has no value, and tables with headers of their own are there. -/
  | tablesGiven
  /-- The variant has no value, and one of the given type is there. -/
  | valueGiven (typeName : String)

namespace Fault

/-- Names between backticks, as alternatives. -/
def alternatives (names : List String) : String :=
  let quote (name : String) := "`" ++ name ++ "`"
  match names with
  | [] => "there are no fields"
  | [a] => quote a
  | [a, b] => quote a ++ " or " ++ quote b
  | names => "one of " ++ ", ".intercalate (names.map quote)

/-- A value as it was found. -/
def found : Value → String
  | .string text => "string " ++ Text.quoted text
  | .integer value => "integer `" ++ toString value ++ "`"
  | .float value => "floating point `" ++ value.text ++ "`"
  | .boolean value => "boolean `" ++ toString value ++ "`"
  | .array _ _ => "sequence"
  | .datetime => "map"
  | .table _ => "map"

def message : Fault → String
  | wrongType value expected => "invalid type: " ++ found value ++ ", expected " ++ expected
  | outOfRange value expected =>
    "invalid value: " ++ found (.integer value) ++ ", expected " ++ expected
  | tooShort length expected =>
    "invalid length " ++ toString length ++ ", expected " ++ expected
  | unknownField name known =>
    "unknown field `" ++ name ++ "`, expected " ++ alternatives known
  | missingField name => "missing field `" ++ name ++ "`"
  | unknownVariant name known =>
    "unknown variant `" ++ name ++ "`, expected " ++ alternatives known
  | noVariant => "wanted string or table"
  | nothingNamed => "wanted exactly 1 element, found 0 elements"
  | severalNamed => "wanted exactly 1 element, more than 1 element"
  | valueNeeded => "invalid type: unit variant, expected newtype variant"
  | contentsGiven => "expected empty table"
  | tablesGiven => "expected empty array"
  | valueGiven typeName => "expected table, found " ++ typeName

end Fault

/-! ## Reading -/

variable {α σ : Type}

abbrev Decoded (α : Type) := Except Fault α

def readText : Value → Decoded String
  | .string text => .ok text
  | value => .error (.wrongType value "a string")

def readBoolean : Value → Decoded Bool
  | .boolean value => .ok value
  | value => .error (.wrongType value "a boolean")

def readWord : Value → Decoded Nat
  | .integer value => if 0 ≤ value then .ok value.toNat else .error (.outOfRange value "u64")
  | value => .error (.wrongType value "u64")

def readList (read : Value → Decoded α) : Value → Decoded (List α)
  | .array _ items => items.mapM read
  | value => .error (.wrongType value "a sequence")

/-- The value of a variant that stands alone is an empty one. -/
def readNothing : Value → Decoded Unit
  | .table [] => .ok ()
  | .array _ [] => .ok ()
  | .table _ => .error .contentsGiven
  | .array .brackets _ => .error .contentsGiven
  | .array .headers _ => .error .tablesGiven
  | value => .error (.valueGiven value.typeName)

def readVariant (variants : List (String × Variant Fault α)) : Value → Decoded α
  | .string name =>
    match variants.lookup name with
    | some (.unit choice) => .ok choice
    | some (.newtype _) => .error .valueNeeded
    | none => .error (.unknownVariant name (variants.map Prod.fst))
  | .table [] => .error .nothingNamed
  | .table [(name, value)] =>
    match variants.lookup name with
    | some (.unit choice) => (readNothing value).map fun _ => choice
    | some (.newtype read) => read value
    | none => .error (.unknownVariant name (variants.map Prod.fst))
  | .table (_ :: _ :: _) => .error .severalNamed
  | _ => .error .noVariant

def readEntries (schema : Schema Fault σ) : Entries → Decoded σ
  | [] =>
    match schema.required with
    | [] => .ok schema.start
    | key :: _ => .error (.missingField key)
  | (key, value) :: rest =>
    match schema.fields.lookup key with
    | some read => read schema.start value >>= fun record => readEntries (schema.told key record) rest
    | none =>
      if schema.strict then .error (.unknownField key (schema.fields.map Prod.fst))
      else readEntries schema rest

/-- Reads the remaining fields from the remaining items of a list; items behind the last field do not
count. -/
def readItems (schema : Schema Fault σ) (length : Nat) :
    (fields : List (String × (σ → Value → Decoded σ))) → σ → List Value → Decoded σ
  | [], record, _ => .ok record
  | (_, read) :: fields, record, item :: items =>
    read record item >>= fun record => readItems schema length fields record items
  | (key, _) :: fields, record, [] =>
    if key ∈ schema.required then
      .error (.tooShort length
        ("struct " ++ schema.name ++ " with " ++ toString schema.fields.length ++ " elements"))
    else readItems schema length fields record []

/-- The key by which a date or time is known where a record is expected. -/
def datetimeKey : String := "$__toml_private_datetime"

def readRecord (schema : Schema Fault σ) : Value → Decoded σ
  | .table entries => readEntries schema entries
  | .array _ items => readItems schema items.length schema.fields schema.start items
  | .datetime => readEntries schema [(datetimeKey, .datetime)]
  | value => .error (.wrongType value ("struct " ++ schema.name))

def decoder : Decoder Fault where
  document := ofText?
  text := readText
  boolean := readBoolean
  word := readWord
  list := readList
  variant := readVariant
  record := readRecord
  message := Fault.message

theorem decoder_lawful : decoder.Lawful where
  text_string _ := rfl
  boolean_boolean _ := rfl
  word_integer n _ := by simp [decoder, readWord]
  list_array _ _ _ := rfl
  variant_string h := by simp [decoder, readVariant, h]
  variant_table value h := by simp [decoder, readVariant, h]
  record_nil schema h := by simp [decoder, readRecord, readEntries, h]
  record_missing schema h := by
    obtain ⟨key, keys, hkeys⟩ := List.exists_cons_of_ne_nil h
    exact ⟨.missingField key, by simp [decoder, readRecord, readEntries, hkeys]⟩
  record_field value _ h _ := by simp [decoder, readRecord, readEntries, h]
  record_stray {_ schema} {key} value rest hstrict h := by
    refine ⟨.unknownField key (schema.fields.map Prod.fst), ?_⟩
    simp [decoder, readRecord, readEntries, hstrict, h]

end CommittedRegex.Toml
