import CommittedRegex.Toml.Value

/-! # Decoders

Texts are made into documents, and values read, by a library of its own: a decoder. Nothing is said here
of how it works. What it is to read is declared as data, a choice by its variants and a record by its
fields, and `Decoder.Lawful` is what its documentation promises about such declarations. The promise about
a record is about the first entry of a table: the field under its key is read, and then the rest of the
table as the rest of the record. -/
namespace CommittedRegex.Toml

variable {ε α σ : Type}

/-- The largest integer of a document. -/
def maxInteger : Nat := 9223372036854775807

/-- A variant of a choice, with or without a value behind its name. -/
inductive Variant (ε α : Type)
  | unit (choice : α)
  | newtype (read : Value → Except ε α)

/-- The declaration of a record. -/
structure Schema (ε σ : Type) where
  name : String
  /-- Only the fields may be given. -/
  strict : Bool
  /-- What the value under a key makes of the record that has been read before it. -/
  fields : List (String × (σ → Value → Except ε σ))
  /-- The keys of the fields without a default. -/
  required : List String
  /-- What is known of the record. To begin with, the other fields have their defaults in it. -/
  start : σ

/-- What is left to read of a record once the field under the key has been read. -/
def Schema.told (schema : Schema ε σ) (key : String) (record : σ) : Schema ε σ :=
  { schema with start := record, required := schema.required.filter (· ≠ key) }

/-- A library that reads documents, whose errors are of the type `ε`. -/
structure Decoder (ε : Type) where
  /-- The document that a text is, if it is one. -/
  document : String → Option Entries
  text : Value → Except ε String
  boolean : Value → Except ε Bool
  /-- A number of 64 bits without sign. -/
  word : Value → Except ε Nat
  list {α : Type} (read : Value → Except ε α) : Value → Except ε (List α)
  variant {α : Type} (variants : List (String × Variant ε α)) : Value → Except ε α
  record {σ : Type} (schema : Schema ε σ) : Value → Except ε σ
  message : ε → String

/-- It ends in an error, whichever it is. -/
def Fails (outcome : Except ε α) : Prop := ∃ error, outcome = .error error

/-- What a decoder promises. The keys of a table are different from each other, so nothing is said of an
entry whose key comes again. -/
structure Decoder.Lawful (decoder : Decoder ε) : Prop where
  text_string (text : String) : decoder.text (.string text) = .ok text
  boolean_boolean (value : Bool) : decoder.boolean (.boolean value) = .ok value
  word_integer (n : Nat) : n ≤ maxInteger → decoder.word (.integer n) = .ok n
  /-- The items of a list are read one after the other. -/
  list_array {α : Type} (read : Value → Except ε α) (form : ArrayForm) (items : List Value) :
    decoder.list read (.array form items) = items.mapM read
  /-- A string names a variant that stands alone. -/
  variant_string {α : Type} {variants : List (String × Variant ε α)} {name : String} {choice : α} :
    variants.lookup name = some (.unit choice) → decoder.variant variants (.string name) = .ok choice
  /-- A table with one key names a variant by it, and holds the value of the variant. -/
  variant_table {α : Type} {variants : List (String × Variant ε α)} {name : String}
    {read : Value → Except ε α} (value : Value) :
    variants.lookup name = some (.newtype read) →
      decoder.variant variants (.table [(name, value)]) = read value
  /-- Nothing is missing at the end of a table. -/
  record_nil {σ : Type} (schema : Schema ε σ) :
    schema.required = [] → decoder.record schema (.table []) = .ok schema.start
  record_missing {σ : Type} (schema : Schema ε σ) :
    schema.required ≠ [] → Fails (decoder.record schema (.table []))
  /-- The first entry is read as its field, and the rest of the table as the rest of the record. -/
  record_field {σ : Type} {schema : Schema ε σ} {key : String} {read : σ → Value → Except ε σ}
    (value : Value) {rest : Entries} :
    schema.fields.lookup key = some read → key ∉ rest.map Prod.fst →
      decoder.record schema (.table ((key, value) :: rest)) =
        read schema.start value >>= fun record => decoder.record (schema.told key record) (.table rest)
  /-- The first entry is no field. -/
  record_stray {σ : Type} {schema : Schema ε σ} {key : String} (value : Value) (rest : Entries) :
    schema.strict = true → schema.fields.lookup key = none →
      Fails (decoder.record schema (.table ((key, value) :: rest)))

end CommittedRegex.Toml
