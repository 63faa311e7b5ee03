import CommittedRegex.PatternFile.Parse
import CommittedRegex.Proofs.PatternFile.Record
import Mathlib.Data.List.Forall2

/-! # Pattern files read back

A pattern file can be written as a document in many ways: the keys of each table stand in any order, and a
setting with its default, settings that are all defaults and an empty list of cases may be left out. Every
decoder that keeps its promises gives the file back from each of them. It refuses a document with a stray key,
in itself, in the settings or in a case, and one in which the pattern or a field of a case is missing. -/
namespace CommittedRegex
open Toml PatternFile

/-! ## What a document tells -/

mutual

/-- The value names the kind of the definition: alone where there is nothing more to say, and as the only key
of a table elsewhere. -/
inductive Definition.WrittenAs : Definition → Value → Prop
  | empty : WrittenAs .empty (.string "empty")
  | literal (text : String) : WrittenAs (.literal text) (.single "literal" (.string text))
  | concat {operands : List Definition} {items : List Value} (form : ArrayForm)
      (h : AllWrittenAs operands items) :
      WrittenAs (.concat operands) (.single "concat" (.array form items))
  | alternate {operands : List Definition} {items : List Value} (form : ArrayForm)
      (h : AllWrittenAs operands items) :
      WrittenAs (.alternate operands) (.single "alternate" (.array form items))
  | star {body : Definition} {value : Value} (h : WrittenAs body value) :
      WrittenAs (.star body) (.single "repeat" value)

inductive Definition.AllWrittenAs : List Definition → List Value → Prop
  | nil : AllWrittenAs [] []
  | cons {first : Definition} {rest : List Definition} {value : Value} {values : List Value}
      (hfirst : WrittenAs first value) (hrest : AllWrittenAs rest values) :
      AllWrittenAs (first :: rest) (value :: values)

end

def PatternFile.IsTableOf (fields : List Field) (value : Value) : Prop :=
  ∃ entries, value = .table entries ∧ WritesFields fields entries

def Config.fields (config : Config) : List Field :=
  [⟨"zero_width", (· = .string config.zeroWidth.name), config.zeroWidth = .guard⟩,
    ⟨"max_steps", fun value =>
      ∃ limit, config.maxSteps = some limit ∧ limit ≤ maxInteger ∧ value = .integer limit,
      config.maxSteps = none⟩]

def Case.fields (c : Case) : List Field :=
  [⟨"input", (· = .string c.input), False⟩, ⟨"expect", (· = .boolean c.expect), False⟩]

def PatternFile.fields (file : PatternFile) : List Field :=
  [⟨"pattern", file.pattern.WrittenAs, False⟩,
    ⟨"config", IsTableOf file.config.fields, file.config = {}⟩,
    ⟨"case", fun value => ∃ form items, value = .array form items ∧
      List.Forall₂ (fun c item => IsTableOf (Case.fields c) item) file.cases items, file.cases = []⟩]

/-- A table of the document has a stray key or lacks a key that is required. -/
inductive PatternFile.IsFaulty (entries : Entries) : Prop
  | whole (h : Misfits ["pattern", "config", "case"] ["pattern"] entries)
  | settings (hdistinct : (entries.map Prod.fst).Nodup) (table : Entries)
      (hmem : ("config", .table table) ∈ entries) (h : Misfits ["zero_width", "max_steps"] [] table)
  | oneCase (hdistinct : (entries.map Prod.fst).Nodup) (form : ArrayForm) (items : List Value)
      (table : Entries) (hmem : ("case", .array form items) ∈ entries) (hitem : .table table ∈ items)
      (h : Misfits ["input", "expect"] ["input", "expect"] table)

namespace PatternFile

variable {ε : Type} {decoder : Decoder ε}

/-! ## Definitions -/

mutual

theorem read_of_writtenAs (hlawful : decoder.Lawful) (definitions : Definition.Reader decoder) :
    {definition : Definition} → {value : Value} → definition.WrittenAs value →
      definitions.read value = .ok definition
  | _, _, .empty => by
    rw [definitions.unfolds]
    exact hlawful.variant_string rfl
  | _, _, .literal text => by
    rw [definitions.unfolds, Value.single, hlawful.variant_table _ rfl]
    exact map_of_eq_ok (hlawful.text_string text) _
  | _, _, .concat form h => by
    rw [definitions.unfolds, Value.single, hlawful.variant_table _ rfl, hlawful.list_array]
    exact map_of_eq_ok (mapM_read_of_allWrittenAs hlawful definitions h) _
  | _, _, .alternate form h => by
    rw [definitions.unfolds, Value.single, hlawful.variant_table _ rfl, hlawful.list_array]
    exact map_of_eq_ok (mapM_read_of_allWrittenAs hlawful definitions h) _
  | _, _, .star h => by
    rw [definitions.unfolds, Value.single, hlawful.variant_table _ rfl]
    exact map_of_eq_ok (read_of_writtenAs hlawful definitions h) _

theorem mapM_read_of_allWrittenAs (hlawful : decoder.Lawful) (definitions : Definition.Reader decoder) :
    {operands : List Definition} → {items : List Value} → Definition.AllWrittenAs operands items →
      items.mapM definitions.read = .ok operands
  | _, _, .nil => rfl
  | _, _, .cons hfirst hrest => by
    rw [List.mapM_cons, read_of_writtenAs hlawful definitions hfirst,
      mapM_read_of_allWrittenAs hlawful definitions hrest]
    rfl

end

mutual

theorem writtenAs_toValue : (definition : Definition) → definition.WrittenAs definition.toValue
  | .empty => .empty
  | .literal text => .literal text
  | .concat operands => .concat _ (allWrittenAs_toValues operands)
  | .alternate operands => .alternate _ (allWrittenAs_toValues operands)
  | .star body => .star (writtenAs_toValue body)

theorem allWrittenAs_toValues :
    (operands : List Definition) → Definition.AllWrittenAs operands (Definition.toValues operands)
  | [] => .nil
  | first :: rest => .cons (writtenAs_toValue first) (allWrittenAs_toValues rest)

end

/-! ## Reading what was written -/

/-- The part of the settings that is told under the key agrees with what was written. -/
def SettingRight (config : Config) (key : String) (parts : Config) : Prop :=
  (key = "zero_width" → parts.zeroWidth = config.zeroWidth) ∧
    (key = "max_steps" → parts.maxSteps = config.maxSteps)

theorem accepts_settings (hlawful : decoder.Lawful) (config : Config) :
    (Config.schema decoder).Accepts config.fields (SettingRight config) := by
  intro field hfield
  simp only [Config.fields, List.mem_cons, List.not_mem_nil, or_false] at hfield
  rcases hfield with rfl | rfl
  · refine ⟨_, rfl, fun value htells parts => ?_⟩
    obtain rfl : value = .string config.zeroWidth.name := htells
    have hpolicy : (ZeroWidth.variants : List (String × Variant ε ZeroWidth)).lookup config.zeroWidth.name =
        some (.unit config.zeroWidth) := by
      cases config.zeroWidth <;> rfl
    exact ⟨_, map_of_eq_ok (hlawful.variant_string hpolicy) _, by simp [SettingRight],
      fun key h => ⟨fun _ => rfl, h.2⟩⟩
  · refine ⟨_, rfl, fun value htells parts => ?_⟩
    obtain ⟨limit, hlimit, hbound, rfl⟩ := htells
    exact ⟨_, map_of_eq_ok (hlawful.word_integer limit hbound) _, by simp [SettingRight, hlimit],
      fun key h => ⟨h.1, fun _ => hlimit.symm⟩⟩

theorem read_of_isTableOf_settings (hlawful : decoder.Lawful) {config : Config} {value : Value}
    (h : IsTableOf config.fields value) : decoder.record (Config.schema decoder) value = .ok config := by
  obtain ⟨entries, rfl, hwrites⟩ := h
  refine (accepts_settings hlawful config).record_eq hlawful ?_ (by simp [Config.schema]) ?_ hwrites
  · simp +contextual [Config.fields, Config.schema, SettingRight]
  · intro record hright
    have hparts : record.zeroWidth = config.zeroWidth ∧ record.maxSteps = config.maxSteps := by
      simpa [Config.fields, SettingRight] using hright
    exact congrArg₂ Config.mk hparts.1 hparts.2

def CaseRight (c : Case) (key : String) (parts : Case) : Prop :=
  (key = "input" → parts.input = c.input) ∧ (key = "expect" → parts.expect = c.expect)

theorem accepts_case (hlawful : decoder.Lawful) (c : Case) :
    (Case.schema decoder).Accepts c.fields (CaseRight c) := by
  intro field hfield
  simp only [Case.fields, List.mem_cons, List.not_mem_nil, or_false] at hfield
  rcases hfield with rfl | rfl
  · refine ⟨_, rfl, fun value htells parts => ?_⟩
    obtain rfl : value = .string c.input := htells
    exact ⟨_, map_of_eq_ok (hlawful.text_string _) _, by simp [CaseRight],
      fun key h => ⟨fun _ => rfl, h.2⟩⟩
  · refine ⟨_, rfl, fun value htells parts => ?_⟩
    obtain rfl : value = .boolean c.expect := htells
    exact ⟨_, map_of_eq_ok (hlawful.boolean_boolean _) _, by simp [CaseRight],
      fun key h => ⟨h.1, fun _ => rfl⟩⟩

theorem read_of_isTableOf_case (hlawful : decoder.Lawful) {c : Case} {value : Value}
    (h : IsTableOf c.fields value) : decoder.record (Case.schema decoder) value = .ok c := by
  obtain ⟨entries, rfl, hwrites⟩ := h
  refine (accepts_case hlawful c).record_eq hlawful (by simp [Case.fields]) ?_ ?_ hwrites
  · simp [Case.schema, Case.fields]
  · intro record hright
    have hparts : record.input = c.input ∧ record.expect = c.expect := by
      simpa [Case.fields, CaseRight] using hright
    exact congrArg₂ Case.mk hparts.1 hparts.2

theorem mapM_read_of_forall₂ (hlawful : decoder.Lawful) {cases : List Case} {items : List Value}
    (h : List.Forall₂ (fun c item => IsTableOf (Case.fields c) item) cases items) :
    items.mapM (decoder.record (Case.schema decoder)) = .ok cases := by
  induction h with
  | nil => rfl
  | cons hfirst _ ih =>
    rw [List.mapM_cons, read_of_isTableOf_case hlawful hfirst, ih]
    rfl

def FileRight (file : PatternFile) (key : String) (parts : PatternFile) : Prop :=
  (key = "pattern" → parts.pattern = file.pattern) ∧ (key = "config" → parts.config = file.config) ∧
    (key = "case" → parts.cases = file.cases)

theorem accepts_file (hlawful : decoder.Lawful) (definitions : Definition.Reader decoder)
    (file : PatternFile) : (schema decoder definitions).Accepts file.fields (FileRight file) := by
  intro field hfield
  simp only [PatternFile.fields, List.mem_cons, List.not_mem_nil, or_false] at hfield
  rcases hfield with rfl | rfl | rfl
  · refine ⟨_, rfl, fun value htells parts => ?_⟩
    exact ⟨_, map_of_eq_ok (read_of_writtenAs hlawful definitions htells) _, by simp [FileRight],
      fun key h => ⟨fun _ => rfl, h.2⟩⟩
  · refine ⟨_, rfl, fun value htells parts => ?_⟩
    exact ⟨_, map_of_eq_ok (read_of_isTableOf_settings hlawful htells) _, by simp [FileRight],
      fun key h => ⟨h.1, fun _ => rfl, h.2.2⟩⟩
  · refine ⟨_, rfl, fun value htells parts => ?_⟩
    obtain ⟨form, items, rfl, hitems⟩ := htells
    have hcases : decoder.list (decoder.record (Case.schema decoder)) (.array form items) =
        .ok file.cases := by
      rw [hlawful.list_array, mapM_read_of_forall₂ hlawful hitems]
    exact ⟨_, map_of_eq_ok hcases _, by simp [FileRight], fun key h => ⟨h.1, h.2.1, fun _ => rfl⟩⟩

theorem record_of_writes (hlawful : decoder.Lawful) (definitions : Definition.Reader decoder)
    {file : PatternFile} {entries : Entries} (h : WritesFields file.fields entries) :
    decoder.record (schema decoder definitions) (.table entries) = .ok file := by
  refine (accepts_file hlawful definitions file).record_eq hlawful ?_ ?_ ?_ h
  · simp +contextual [PatternFile.fields, schema, FileRight]
  · simp [PatternFile.fields, schema]
  · intro record hright
    have hparts :
        record.pattern = file.pattern ∧ record.config = file.config ∧ record.cases = file.cases := by
      simpa [PatternFile.fields, FileRight] using hright
    cases record
    cases file
    simpa using hparts

/-! ## Documents that cannot be read -/

theorem fails_of_isFaulty (hlawful : decoder.Lawful) (definitions : Definition.Reader decoder)
    {entries : Entries} (h : IsFaulty entries) :
    Fails (decoder.record (schema decoder definitions) (.table entries)) := by
  -- a wrong table inside is refused where its entry is read, whatever has been read before it
  cases h with
  | whole h => exact fails_record_of_misfits hlawful rfl h
  | settings hdistinct table hmem h =>
    refine fails_record_of_refused hlawful rfl hdistinct hmem fun read hread record => ?_
    obtain rfl := Option.some.inj hread
    have hrecord : Fails (decoder.record (Config.schema decoder) (.table table)) :=
      fails_record_of_misfits hlawful rfl h
    exact hrecord.map _
  | oneCase hdistinct form items table hmem hitem h =>
    refine fails_record_of_refused hlawful rfl hdistinct hmem fun read hread record => ?_
    obtain rfl := Option.some.inj hread
    have hlist : Fails (decoder.list (decoder.record (Case.schema decoder)) (.array form items)) := by
      rw [hlawful.list_array]
      exact fails_mapM hitem (fails_record_of_misfits hlawful rfl h)
    exact hlist.map _

/-! ## Writing and reading -/

/-- The entries that are written for the settings leave out no more than a limit that there is not. -/
theorem writes_settings (config : Config) (hlimit : ∀ limit ∈ config.maxSteps, limit ≤ maxInteger) :
    WritesFields config.fields config.toEntries := by
  obtain ⟨zeroWidth, maxSteps⟩ := config
  cases maxSteps with
  | none => exact .write rfl (by simp) (.skip rfl writesFields_nil)
  | some limit =>
    exact .write rfl (by simp) (.write ⟨limit, rfl, hlimit limit rfl, rfl⟩ (by simp) writesFields_nil)

theorem writes_case (c : Case) : WritesFields c.fields c.toEntries :=
  .write rfl (by simp) (.write rfl (by simp) writesFields_nil)

theorem writes_file (file : PatternFile) (hlimit : ∀ limit ∈ file.config.maxSteps, limit ≤ maxInteger) :
    WritesFields file.fields file.toEntries := by
  have hcases : List.Forall₂ (fun c item => IsTableOf (Case.fields c) item) file.cases
      (file.cases.map fun c => .table c.toEntries) := by
    rw [List.forall₂_map_right_iff, List.forall₂_same]
    exact fun c _ => ⟨_, rfl, writes_case c⟩
  have hsettings := writes_settings file.config hlimit
  exact .write (writtenAs_toValue file.pattern) (by simp) (.write ⟨_, rfl, hsettings⟩ (by simp)
    (.write ⟨_, _, rfl, hcases⟩ (by simp) writesFields_nil))

/-- Each file can be written, and from whatever writes it, it is read; a faulty document is refused, by an
error of the reading. -/
theorem documents_read_back (hlawful : decoder.Lawful) (definitions : Definition.Reader decoder) :
    (∀ file : PatternFile, (∀ limit ∈ file.config.maxSteps, limit ≤ maxInteger) →
      WritesFields file.fields file.toEntries) ∧
    (∀ (file : PatternFile) (entries : Entries), WritesFields file.fields entries →
      decoder.record (schema decoder definitions) (.table entries) = .ok file ∧
      ∀ text, decoder.document text = some entries → parseWith decoder definitions text = .ok file) ∧
    ∀ entries : Entries, IsFaulty entries →
      ∃ error, decoder.record (schema decoder definitions) (.table entries) = .error error ∧
        ∀ text, decoder.document text = some entries →
          parseWith decoder definitions text = .error (.invalid (decoder.message error)) := by
  refine ⟨writes_file, fun file entries hwrites => ?_, fun entries hfaulty => ?_⟩
  · have hread := record_of_writes hlawful definitions hwrites
    exact ⟨hread, fun text htext => by simp [parseWith, Decoder.parse, htext, hread]⟩
  · obtain ⟨error, herror⟩ := fails_of_isFaulty hlawful definitions hfaulty
    exact ⟨error, herror, fun text htext => by simp [parseWith, Decoder.parse, htext, herror]⟩

/-- One literal as the only operand. -/
private def oneOperand : PatternFile where
  pattern := .concat [.literal "empty"]
  config := { maxSteps := some 7 }

/-- The settings come first, and the policy and the cases are left out. -/
private def shortened : Entries :=
  [("config", .table [("max_steps", .integer 7)]),
    ("pattern", .single "concat" (.array .headers [.single "literal" (.string "empty")]))]

private theorem writes_shortened : WritesFields oneOperand.fields shortened := by
  have hpattern : oneOperand.pattern.WrittenAs
      (.single "concat" (.array .headers [.single "literal" (.string "empty")])) :=
    .concat .headers (.cons (.literal "empty") .nil)
  have hsettings : WritesFields oneOperand.config.fields [("max_steps", .integer 7)] :=
    .skip rfl (.write ⟨7, rfl, by decide, rfl⟩ (by simp) writesFields_nil)
  have hordered : WritesFields oneOperand.fields [("pattern", _), ("config", _)] :=
    .write hpattern (by simp) (.write ⟨_, rfl, hsettings⟩ (by simp) (.skip rfl writesFields_nil))
  exact hordered.perm (.swap ..)

theorem settings_come_first :
    WritesFields oneOperand.fields oneOperand.toEntries ∧
    PatternFile.parse "[config]\nmax_steps=7\n[[pattern.concat]]\nliteral=\"empty\"\n" = .ok oneOperand ∧
    ∃ fault : Fault,
      PatternFile.parse "pattern=\"empty\"\n[config]\nsteps=7\n" = .error (.invalid fault.message) := by
  obtain ⟨hwrites, hreads, hrefuses⟩ := documents_read_back Toml.decoder_lawful Definition.reader
  refine ⟨hwrites oneOperand (by decide), (hreads oneOperand shortened writes_shortened).2 _ ?_, ?_⟩
  · have htext : "[config]\nmax_steps=7\n[[pattern.concat]]\nliteral=\"empty\"\n".toList =
        ['[', 'c', 'o', 'n', 'f', 'i', 'g', ']', '\n',
          'm', 'a', 'x', '_', 's', 't', 'e', 'p', 's', '=', '7', '\n',
          '[', '[', 'p', 'a', 't', 't', 'e', 'r', 'n', '.', 'c', 'o', 'n', 'c', 'a', 't', ']', ']', '\n',
          'l', 'i', 't', 'e', 'r', 'a', 'l', '=', '"', 'e', 'm', 'p', 't', 'y', '"', '\n'] := rfl
    show Toml.ofText? _ = some shortened
    rw [Toml.ofText?, htext]
    rfl
  · have htext : "pattern=\"empty\"\n[config]\nsteps=7\n".toList =
        ['p', 'a', 't', 't', 'e', 'r', 'n', '=', '"', 'e', 'm', 'p', 't', 'y', '"', '\n',
          '[', 'c', 'o', 'n', 'f', 'i', 'g', ']', '\n', 's', 't', 'e', 'p', 's', '=', '7', '\n'] := rfl
    have htoml : Toml.ofText? "pattern=\"empty\"\n[config]\nsteps=7\n" =
        some [("pattern", .string "empty"), ("config", .table [("steps", .integer 7)])] := by
      rw [Toml.ofText?, htext]
      rfl
    have hfaulty : IsFaulty [("pattern", .string "empty"), ("config", .table [("steps", .integer 7)])] :=
      .settings (by simp) [("steps", .integer 7)] (by simp)
        ⟨by simp, .inl ⟨("steps", .integer 7), by simp, by decide⟩⟩
    obtain ⟨fault, -, hparse⟩ := hrefuses _ hfaulty
    exact ⟨fault, hparse _ htoml⟩

end PatternFile

end CommittedRegex
