import CommittedRegex.Toml.Decoder
import Mathlib.Data.List.Basic

/-! # Records in documents

A record stands in a document as a table with its fields under their keys, in any order; some fields may be
missing. A decoder reads it entry by entry, each one in the light of the record that the entries before it
have given. So if the value of each field is accepted, whatever the record is, the outcome is right in every
field that an entry told or that was right before; and one entry that is refused for every record, or a
required field without an entry, makes the table unreadable, whatever else is in it. -/
namespace CommittedRegex.Toml

variable {ε α β σ : Type}

/-! ## Succeeding and failing -/

theorem map_of_eq_ok {outcome : Except ε α} {value : α} (h : outcome = .ok value) (f : α → β) :
    outcome.map f = .ok (f value) := by
  rw [h]
  rfl

theorem fails_error (error : ε) : Fails (.error error : Except ε α) := ⟨error, rfl⟩

theorem Fails.map {outcome : Except ε α} (h : Fails outcome) (f : α → β) : Fails (outcome.map f) := by
  obtain ⟨error, rfl⟩ := h
  exact fails_error error

/-- What fails for each outcome of what comes before it fails behind it. -/
theorem fails_bind {outcome : Except ε α} {next : α → Except ε β}
    (h : ∀ value, outcome = .ok value → Fails (next value)) : Fails (outcome >>= next) := by
  cases outcome with
  | error error => exact fails_error error
  | ok value => exact h value rfl

theorem fails_mapM {read : α → Except ε β} {items : List α} {item : α} (hmem : item ∈ items)
    (hitem : Fails (read item)) : Fails (items.mapM read) := by
  induction items with
  | nil => cases hmem
  | cons first rest ih =>
    rw [List.mapM_cons]
    refine fails_bind fun value hvalue => ?_
    rcases List.mem_cons.mp hmem with rfl | hrest
    · obtain ⟨error, herror⟩ := hitem
      cases hvalue.symm.trans herror
    · obtain ⟨error, herror⟩ := ih hrest
      exact ⟨error, by rw [herror]; rfl⟩

/-! ## Tables with the fields of a record -/

/-- A field of a record: its key, which values tell what it is, and whether it may be missing. -/
structure Field where
  key : String
  Tells : Value → Prop
  Spare : Prop

/-- The entries make up a table with the fields, in whatever order they stand. -/
structure WritesFields (fields : List Field) (entries : Entries) : Prop where
  distinct : (entries.map Prod.fst).Nodup
  tells : ∀ entry ∈ entries, ∃ field ∈ fields, entry.1 = field.key ∧ field.Tells entry.2
  complete : ∀ field ∈ fields, field.Spare ∨ field.key ∈ entries.map Prod.fst

section

variable {fields : List Field} {field : Field} {entries : Entries} {value : Value}

theorem writesFields_nil : WritesFields [] [] := ⟨List.nodup_nil, by simp, by simp⟩

theorem WritesFields.write (hvalue : field.Tells value) (hfresh : field.key ∉ entries.map Prod.fst)
    (h : WritesFields fields entries) : WritesFields (field :: fields) ((field.key, value) :: entries) where
  distinct := List.nodup_cons.mpr ⟨hfresh, h.distinct⟩
  tells entry hentry := by
    rcases List.mem_cons.mp hentry with rfl | hrest
    · exact ⟨field, by simp, rfl, hvalue⟩
    · obtain ⟨other, hother, htells⟩ := h.tells entry hrest
      exact ⟨other, List.mem_cons_of_mem _ hother, htells⟩
  complete other hother := by
    rcases List.mem_cons.mp hother with rfl | hrest
    · exact .inr (by simp)
    · exact (h.complete other hrest).imp id (List.mem_cons_of_mem _)

theorem WritesFields.skip (hspare : field.Spare) (h : WritesFields fields entries) :
    WritesFields (field :: fields) entries where
  distinct := h.distinct
  tells entry hentry := by
    obtain ⟨other, hother, htells⟩ := h.tells entry hentry
    exact ⟨other, List.mem_cons_of_mem _ hother, htells⟩
  complete other hother := by
    rcases List.mem_cons.mp hother with rfl | hrest
    · exact .inl hspare
    · exact h.complete other hrest

theorem WritesFields.perm {other : Entries} (h : WritesFields fields entries) (hperm : entries.Perm other) :
    WritesFields fields other where
  distinct := ((hperm.map Prod.fst).nodup_iff).mp h.distinct
  tells entry hentry := h.tells entry (hperm.mem_iff.mpr hentry)
  complete field hfield := (h.complete field hfield).imp id ((hperm.map Prod.fst).mem_iff.mp)

end

/-- The keys of the table differ from each other, but some key is none of the known ones, or a required one
is not there. -/
structure Misfits (known required : List String) (entries : Entries) : Prop where
  distinct : (entries.map Prod.fst).Nodup
  misfit : (∃ entry ∈ entries, entry.1 ∉ known) ∨ ∃ key ∈ required, key ∉ entries.map Prod.fst

/-! ## Entry by entry -/

section

variable {decoder : Decoder ε} {schema : Schema ε σ} {entries : Entries}

/-- Whatever the record is, each field that is told becomes right, and no other one stops being so. -/
def Schema.Accepts (schema : Schema ε σ) (fields : List Field) (Right : String → σ → Prop) : Prop :=
  ∀ field ∈ fields, ∃ read, schema.fields.lookup field.key = some read ∧
    ∀ value, field.Tells value → ∀ record, ∃ next, read record value = .ok next ∧ Right field.key next ∧
      ∀ key, Right key record → Right key next

theorem Schema.Accepts.exists_record {fields : List Field} {Right : String → σ → Prop}
    (hlawful : decoder.Lawful) (h : schema.Accepts fields Right)
    (hdistinct : (entries.map Prod.fst).Nodup)
    (htells : ∀ entry ∈ entries, ∃ field ∈ fields, entry.1 = field.key ∧ field.Tells entry.2)
    (hrequired : ∀ key ∈ schema.required, key ∈ entries.map Prod.fst) :
    ∃ result, decoder.record schema (.table entries) = .ok result ∧
      ∀ key, Right key schema.start ∨ key ∈ entries.map Prod.fst → Right key result := by
  induction entries generalizing schema with
  | nil =>
    have hnone : schema.required = [] := List.eq_nil_iff_forall_not_mem.mpr fun key hkey => by
      simpa using hrequired key hkey
    exact ⟨schema.start, hlawful.record_nil schema hnone, fun key hkey => by simpa using hkey⟩
  | cons entry rest ih =>
    obtain ⟨field, hfield, hkey, hvalue⟩ := htells entry (by simp)
    obtain ⟨read, hread, haccepts⟩ := h field hfield
    obtain ⟨next, hnext, hright, hkeeps⟩ := haccepts entry.2 hvalue schema.start
    rw [← hkey] at hread hright
    rw [List.map_cons, List.nodup_cons] at hdistinct
    -- the rest of the record is not in need of the first key any more
    have hneeded : ∀ key ∈ (schema.told entry.1 next).required, key ∈ rest.map Prod.fst := by
      intro key hkey
      obtain ⟨hmem, hne⟩ : key ∈ schema.required ∧ key ≠ entry.1 := by
        simpa [Schema.told] using hkey
      exact (List.mem_cons.mp (hrequired key hmem)).resolve_left hne
    obtain ⟨result, hresult, hall⟩ := @ih (schema.told entry.1 next) h hdistinct.2
      (fun other hother => htells other (List.mem_cons_of_mem _ hother)) hneeded
    refine ⟨result, ?_, fun key hkey => hall key ?_⟩
    · rw [hlawful.record_field entry.2 hread hdistinct.1, hnext]
      exact hresult
    -- what is right behind the first entry stays right: it was so before, or the entry told it
    · rcases hkey with hbefore | hmem
      · exact .inl (hkeeps key hbefore)
      · rcases List.mem_cons.mp hmem with rfl | hrest
        · exact .inl hright
        · exact .inr hrest

/-- A table with the fields is read as the only record in which they are all right. -/
theorem Schema.Accepts.record_eq {fields : List Field} {Right : String → σ → Prop} {told : σ}
    (hlawful : decoder.Lawful) (h : schema.Accepts fields Right)
    (hspare : ∀ field ∈ fields, field.Spare → Right field.key schema.start)
    (hrequired : ∀ key ∈ schema.required, ∃ field ∈ fields, field.key = key ∧ ¬ field.Spare)
    (honly : ∀ record, (∀ field ∈ fields, Right field.key record) → record = told)
    (hwrites : WritesFields fields entries) : decoder.record schema (.table entries) = .ok told := by
  have hthere : ∀ key ∈ schema.required, key ∈ entries.map Prod.fst := by
    intro key hkey
    obtain ⟨field, hfield, rfl, hneeded⟩ := hrequired key hkey
    exact (hwrites.complete field hfield).resolve_left hneeded
  obtain ⟨result, hresult, hright⟩ := h.exists_record hlawful hwrites.distinct hwrites.tells hthere
  obtain rfl : result = told := honly result fun field hfield =>
    hright field.key ((hwrites.complete field hfield).imp (hspare field hfield) id)
  exact hresult

/-- A table cannot be read if the rest of it cannot, whatever its first entry makes of the record. -/
theorem fails_record_cons (hlawful : decoder.Lawful) (hstrict : schema.strict = true) {key : String}
    {value : Value} {rest : Entries} (hfresh : key ∉ rest.map Prod.fst)
    (h : ∀ read record, schema.fields.lookup key = some read → read schema.start value = .ok record →
      Fails (decoder.record (schema.told key record) (.table rest))) :
    Fails (decoder.record schema (.table ((key, value) :: rest))) := by
  cases hfirst : schema.fields.lookup key with
  | none => exact hlawful.record_stray value rest hstrict hfirst
  | some read =>
    rw [hlawful.record_field value hfirst hfresh]
    exact fails_bind fun record hrecord => h read record hfirst hrecord

/-- An entry that is no field, or whose value is refused for every record, cannot be read over. -/
theorem fails_record_of_refused (hlawful : decoder.Lawful) (hstrict : schema.strict = true)
    (hdistinct : (entries.map Prod.fst).Nodup) {entry : String × Value} (hmem : entry ∈ entries)
    (hrefused : ∀ read, schema.fields.lookup entry.1 = some read → ∀ record, Fails (read record entry.2)) :
    Fails (decoder.record schema (.table entries)) := by
  induction entries generalizing schema with
  | nil => cases hmem
  | cons first rest ih =>
    rw [List.map_cons, List.nodup_cons] at hdistinct
    refine fails_record_cons hlawful hstrict hdistinct.1 fun read record hread hrecord => ?_
    rcases List.mem_cons.mp hmem with rfl | hrest
    · obtain ⟨error, herror⟩ := hrefused read hread schema.start
      cases hrecord.symm.trans herror
    · exact @ih (schema.told first.1 record) hstrict hdistinct.2 hrest hrefused

theorem fails_record_of_missing (hlawful : decoder.Lawful) (hstrict : schema.strict = true)
    (hdistinct : (entries.map Prod.fst).Nodup) {key : String} (hrequired : key ∈ schema.required)
    (hmissing : key ∉ entries.map Prod.fst) : Fails (decoder.record schema (.table entries)) := by
  induction entries generalizing schema with
  | nil => exact hlawful.record_missing schema (List.ne_nil_of_mem hrequired)
  | cons first rest ih =>
    rw [List.map_cons, List.nodup_cons] at hdistinct
    rw [List.map_cons, List.mem_cons, not_or] at hmissing
    refine fails_record_cons hlawful hstrict hdistinct.1 fun read record _ _ => ?_
    have hstill : key ∈ (schema.told first.1 record).required := by
      simp [Schema.told, hrequired, hmissing.1]
    exact @ih (schema.told first.1 record) hstrict hdistinct.2 hstill hmissing.2

theorem fails_record_of_misfits (hlawful : decoder.Lawful) (hstrict : schema.strict = true)
    (h : Misfits (schema.fields.map Prod.fst) schema.required entries) :
    Fails (decoder.record schema (.table entries)) := by
  rcases h.misfit with ⟨entry, hmem, hstray⟩ | ⟨key, hkey, hmissing⟩
  · refine fails_record_of_refused hlawful hstrict h.distinct hmem fun read hread => ?_
    obtain ⟨before, after, hsplit, -⟩ := List.lookup_eq_some_iff.mp hread
    exact absurd (by simp [hsplit]) hstray
  · exact fails_record_of_missing hlawful hstrict h.distinct hkey hmissing

end

end CommittedRegex.Toml
