import CommittedRegex.MatchError
import CommittedRegex.PatternFile.Basic
import CommittedRegex.Toml.Reader

/-! # From text to pattern file

A text is first read as a document; what the document says is read only if it is one. Any decoder will do
for both. With the one that runs, definitions are read by recursion on the values. -/
namespace CommittedRegex
open Toml

section

variable {ε α : Type} (decoder : Decoder ε)

/-- Reads a text as a document, and the document as something else. -/
def Toml.Decoder.parse (read : Value → Except ε α) (text : String) : Except MatchError α :=
  match decoder.document text with
  | none => .error .malformed
  | some entries =>
    match read (.table entries) with
    | .error error => .error (.invalid (decoder.message error))
    | .ok decoded => .ok decoded

variable {decoder} in
theorem Toml.Decoder.parse_of_document {read : Value → Except ε α} {text : String} {entries : Entries}
    {decoded : α} (hdocument : decoder.document text = some entries)
    (hread : read (.table entries) = .ok decoded) : decoder.parse read text = .ok decoded := by
  rw [Decoder.parse, hdocument]
  dsimp only
  rw [hread]

def Config.parseWith : String → Except MatchError Config :=
  decoder.parse (decoder.record (Config.schema decoder))

def PatternFile.parseWith (definitions : Definition.Reader decoder) :
    String → Except MatchError PatternFile :=
  decoder.parse (decoder.record (PatternFile.schema decoder definitions))

end

/-! ## The decoder that runs -/

namespace Definition

def kindNames : List String := ["empty", "literal", "concat", "alternate", "repeat"]

mutual

def ofValue : Value → Decoded Definition
  | .string name =>
    if name = "empty" then .ok .empty
    else if name ∈ kindNames then .error .valueNeeded
    else .error (.unknownVariant name kindNames)
  | .table [] => .error .nothingNamed
  | .table [(name, value)] =>
    if name = "empty" then (readNothing value).map fun _ => .empty
    else if name = "literal" then (readText value).map .literal
    else if name = "concat" then (ofList value).map .concat
    else if name = "alternate" then (ofList value).map .alternate
    else if name = "repeat" then (ofValue value).map .star
    else .error (.unknownVariant name kindNames)
  | .table (_ :: _ :: _) => .error .severalNamed
  | _ => .error .noVariant

def ofList : Value → Decoded (List Definition)
  | .array _ items => ofItems items
  | value => .error (.wrongType value "a sequence")

def ofItems : List Value → Decoded (List Definition)
  | [] => .ok []
  | item :: items => ofValue item >>= fun first => (ofItems items).map (first :: ·)

end

theorem ofItems_eq_mapM (items : List Value) : ofItems items = items.mapM ofValue := by
  induction items with
  | nil => rfl
  | cons item items ih =>
    rw [List.mapM_cons, ofItems, ih]
    rfl

theorem ofList_eq_readList (value : Value) : ofList value = readList ofValue value := by
  cases value <;> simp [ofList, readList, ofItems_eq_mapM]

theorem lookup_variants_of_not_mem {name : String} (h : name ∉ kindNames)
    (self : Value → Decoded Definition) : (variants decoder self).lookup name = none := by
  rw [List.lookup_eq_none_iff]
  simpa [variants, kindNames] using h

theorem mem_kindNames_iff {name : String} : name ∈ kindNames ↔
    name = "empty" ∨ name = "literal" ∨ name = "concat" ∨ name = "alternate" ∨ name = "repeat" := by
  simp [kindNames]

/-- The recursion reads each definition by its kinds. -/
theorem ofValue_unfolds (value : Value) :
    ofValue value = decoder.variant (variants decoder ofValue) value := by
  match value with
  | .string name =>
    by_cases hkind : name ∈ kindNames
    · rcases mem_kindNames_iff.mp hkind with rfl | rfl | rfl | rfl | rfl <;> rfl
    · have hempty : name ≠ "empty" := fun h => hkind (mem_kindNames_iff.mpr (.inl h))
      show _ = readVariant (variants decoder ofValue) (.string name)
      rw [ofValue, if_neg hempty, if_neg hkind, readVariant, lookup_variants_of_not_mem hkind]
      rfl
  | .table [(name, inner)] =>
    by_cases hkind : name ∈ kindNames
    · rcases mem_kindNames_iff.mp hkind with rfl | rfl | rfl | rfl | rfl
      case inr.inr.inl =>
        show (ofList inner).map concat = (readList ofValue inner).map concat
        rw [ofList_eq_readList]
      case inr.inr.inr.inl =>
        show (ofList inner).map alternate = (readList ofValue inner).map alternate
        rw [ofList_eq_readList]
      all_goals rfl
    · obtain ⟨hempty, hliteral, hconcat, halternate, hrepeat⟩ := by
        simpa only [mem_kindNames_iff, not_or] using hkind
      show _ = readVariant (variants decoder ofValue) (.table [(name, inner)])
      rw [ofValue, if_neg hempty, if_neg hliteral, if_neg hconcat, if_neg halternate, if_neg hrepeat,
        readVariant, lookup_variants_of_not_mem hkind]
      rfl
  | .table [] => rfl
  | .table (_ :: _ :: _) => rfl
  | .integer _ => rfl
  | .float _ => rfl
  | .boolean _ => rfl
  | .datetime => rfl
  | .array _ _ => rfl

def reader : Reader decoder := ⟨ofValue, ofValue_unfolds⟩

end Definition

def Config.parse : String → Except MatchError Config := Config.parseWith decoder

def PatternFile.parse : String → Except MatchError PatternFile :=
  PatternFile.parseWith decoder Definition.reader

theorem PatternFile.parse_of_document {text : String} {entries : Entries} {file : PatternFile}
    (hdocument : ofText? text = some entries)
    (hread : decoder.record (schema decoder Definition.reader) (.table entries) = .ok file) :
    PatternFile.parse text = .ok file := by
  rw [PatternFile.parse, PatternFile.parseWith]
  exact Decoder.parse_of_document hdocument hread

end CommittedRegex
