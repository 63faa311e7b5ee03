import Mathlib.Tactic.SplitIfs
import CommittedRegex.CommandLine.Disk

/-! # Writing a file

Writing a file leaves its content at the place that the path leads to, and leaves everything else as it
was. The directories on the way are there before, so the path leads to the same place afterwards, and
reading it gives what was written. -/
namespace CommittedRegex.CommandLine

namespace Entry

/-- The entry itself, but of a directory only that it is one. -/
def outline : Entry → Entry
  | directory _ => directory []
  | entry => entry

/-- What stands where the names lead to. -/
def stands? (entry : Entry) (way : List String) : Option Entry := (entry.find? way).map outline

@[simp] theorem outline_eq_directory {entry : Entry} {entries : List (String × Entry)} :
    entry.outline = directory entries ↔ entries = [] ∧ ∃ inner, entry = directory inner := by
  cases entry <;> simp [outline, eq_comm]

@[simp] theorem outline_eq_file {entry : Entry} {content : ByteArray} :
    entry.outline = file content ↔ entry = file content := by
  cases entry <;> simp [outline]

theorem stands?_eq_directory {entry : Entry} {way : List String} :
    entry.stands? way = some (directory []) ↔ ∃ entries, entry.find? way = some (directory entries) := by
  simp only [stands?, Option.map_eq_some_iff, outline_eq_directory, true_and]
  exact ⟨fun ⟨_, hfind, entries, hentry⟩ => ⟨entries, hentry ▸ hfind⟩,
    fun ⟨entries, hfind⟩ => ⟨_, hfind, entries, rfl⟩⟩

theorem stands?_eq_file {entry : Entry} {way : List String} {content : ByteArray} :
    entry.stands? way = some (file content) ↔ entry.find? way = some (file content) := by
  simp [stands?]

/-- No way leads through what is no directory. -/
theorem find?_cons_of_not_directory {entry : Entry} {name : String} {way : List String}
    (h : entry.outline ≠ directory []) : entry.find? (name :: way) = none := by
  cases entry <;> first | rfl | exact absurd rfl h

private theorem lookup_cons_entry (name other : String) (entry : Entry) (entries : List (String × Entry)) :
    ((name, entry) :: entries).lookup other =
      if other = name then some entry else entries.lookup other := by
  rw [List.lookup_cons]
  by_cases h : other = name
  · rw [if_pos h, h, beq_self_eq_true]
  · rw [if_neg h, beq_false_of_ne h]

private theorem lookup_replace (name other : String) (entry : Entry) (entries : List (String × Entry)) :
    (entries.map fun old => if old.1 == name then (name, entry) else old).lookup other =
      if other = name then (entries.lookup name).map fun _ => entry else entries.lookup other := by
  induction entries with
  | nil => exact (ite_self none).symm
  | cons old entries ih =>
    obtain ⟨first, inner⟩ := old
    rw [List.map_cons, lookup_cons_entry, lookup_cons_entry]
    by_cases hfirst : first = name
    · rw [if_pos (beq_iff_eq.mpr hfirst), lookup_cons_entry, ih, hfirst, if_pos rfl]
      split_ifs <;> rfl
    · rw [if_neg (mt beq_iff_eq.mp hfirst), lookup_cons_entry, ih, if_neg (Ne.symm hfirst)]
      by_cases hother : other = first
      · rw [if_pos hother, if_pos hother, if_neg (hother ▸ hfirst)]
      · rw [if_neg hother, if_neg hother]

theorem lookup_setEntry (name other : String) (entry : Entry) (entries : List (String × Entry)) :
    (setEntry name entry entries).lookup other =
      if other = name then some entry else entries.lookup other := by
  unfold setEntry
  split
  case isTrue hsome =>
    obtain ⟨old, hold⟩ := Option.isSome_iff_exists.mp hsome
    rw [lookup_replace, hold]
    rfl
  case isFalse hnone =>
    have hnone : entries.lookup name = none := Option.not_isSome_iff_eq_none.mp hnone
    rw [List.lookup_append, lookup_cons_entry]
    split_ifs with hother
    · rw [hother, hnone, Option.none_or]
    · exact Option.or_none

theorem find?_directory_cons (entries : List (String × Entry)) (name : String) (way : List String) :
    (directory entries).find? (name :: way) = (entries.lookup name).bind fun entry => entry.find? way := by
  rw [find?]
  cases entries.lookup name <;> rfl

theorem find?_put_cons {entries : List (String × Entry)} {new : Entry} {name other : String}
    {way rest : List String} :
    ((directory entries).put new (name :: way)).find? (other :: rest) =
      if other = name then (((entries.lookup name).getD (directory [])).put new way).find? rest
      else (directory entries).find? (other :: rest) := by
  simp only [put, find?_directory_cons, lookup_setEntry]
  split <;> rfl

section

variable {entry new : Entry} {way other : List String} {name : String} {entries : List (String × Entry)}

private theorem find?_cons_eq_directory (h : entry.find? (name :: way) = some (directory entries)) :
    ∃ others inner, entry = directory others ∧ others.lookup name = some inner ∧
      inner.find? way = some (directory entries) := by
  cases entry with
  | directory others =>
    obtain ⟨inner, hlookup, hinner⟩ := Option.bind_eq_some_iff.mp (find?_directory_cons .. ▸ h)
    exact ⟨others, inner, rfl, hlookup, hinner⟩
  | _ => simp [find?] at h

/-- An entry that is put into a directory stands there. -/
theorem find?_put (h : entry.find? way = some (directory entries)) :
    (entry.put new (way ++ [name])).find? (way ++ [name]) = some new := by
  induction way generalizing entry with
  | nil =>
    obtain rfl : entry = directory entries := by simpa [find?] using h
    rw [List.nil_append, find?_put_cons, if_pos rfl, put, find?]
  | cons first way ih =>
    obtain ⟨others, inner, rfl, hlookup, hinner⟩ := find?_cons_eq_directory h
    rw [List.cons_append, find?_put_cons, if_pos rfl, hlookup, Option.getD_some]
    exact ih hinner

/-- Nothing else changes where what is put, and what stood there before, is no directory. -/
theorem stands?_put_of_ne (h : entry.find? way = some (directory entries))
    (hnew : new.outline ≠ directory [])
    (hold : entry.stands? (way ++ [name]) ≠ some (directory [])) (hother : other ≠ way ++ [name]) :
    (entry.put new (way ++ [name])).stands? other = entry.stands? other := by
  induction way generalizing entry other with
  | nil =>
    obtain rfl : entry = directory entries := by simpa [find?] using h
    match other with
    | [] => rfl
    | first :: [] =>
      have hfirst : first ≠ name := by simpa using hother
      rw [List.nil_append, stands?, find?_put_cons, if_neg hfirst, stands?]
    | first :: second :: rest =>
      rw [List.nil_append, stands?, find?_put_cons, stands?]
      by_cases hfirst : first = name
      · subst hfirst
        rw [if_pos rfl, put, find?_cons_of_not_directory hnew, find?_directory_cons]
        cases hlookup : entries.lookup first with
        | none => rfl
        | some inner =>
          have hinner : inner.outline ≠ directory [] := by
            simpa [stands?, find?, hlookup] using hold
          rw [Option.bind_some, find?_cons_of_not_directory hinner]
      · rw [if_neg hfirst]
  | cons first way ih =>
    obtain ⟨others, inner, rfl, hlookup, hinner⟩ := find?_cons_eq_directory h
    match other with
    | [] => rfl
    | head :: rest =>
      rw [List.cons_append, stands?, find?_put_cons, stands?]
      by_cases hhead : head = first
      · subst hhead
        rw [if_pos rfl, hlookup, Option.getD_some]
        rw [find?_directory_cons, hlookup, Option.bind_some]
        refine ih hinner ?_ ?_
        · simpa [stands?, find?, hlookup] using hold
        · simpa using hother
      · rw [if_neg hhead]

end

end Entry

namespace Disk

theorem follow_append (root : Entry) (place names more : List String) :
    follow root place (names ++ more) =
      (follow root place names).bind fun place => follow root place more := by
  induction names generalizing place with
  | nil => rfl
  | cons name names ih => grind [follow, Except.bind]

/-- Names that were followed lead to the same place where all directories are still there. -/
theorem follow_eq_ok_of_directories {root root' : Entry} {place result names : List String}
    (hdirectories : ∀ way, root.stands? way = some (.directory []) → root'.stands? way = some (.directory []))
    (h : follow root place names = .ok result) : follow root' place names = .ok result := by
  induction names generalizing place with
  | nil => exact h
  | cons name names ih =>
    unfold follow at h
    split at h
    · cases h
    case h_2 entries hfind =>
      obtain ⟨entries', hfind'⟩ := Entry.stands?_eq_directory.mp
        (hdirectories place (Entry.stands?_eq_directory.mpr ⟨entries, hfind⟩))
      unfold follow
      rw [hfind']
      dsimp only
      split_ifs at h ⊢ <;> exact ih h
    · cases h

theorem follow_dot_eq_ok {root : Entry} {place result : List String} (h : follow root place ["."] = .ok result) :
    place = result ∧ root.stands? place = some (.directory []) := by
  unfold follow at h
  split at h
  · cases h
  case h_2 entries hfind =>
    exact ⟨by simpa [follow] using h, Entry.stands?_eq_directory.mpr ⟨entries, hfind⟩⟩
  · cases h

theorem follow_name_eq_ok {root : Entry} {place result : List String} {name : String} (hdot : name ≠ ".")
    (hdots : name ≠ "..") (h : follow root place [name] = .ok result) : result = place ++ [name] := by
  unfold follow at h
  split at h
  · cases h
  · rw [if_neg hdot, if_neg hdots] at h
    split at h
    · cases h
    · simpa [follow] using h.symm
  · cases h

theorem walk_append (disk : Disk) (path : String) (names more : List String) :
    disk.walk path (names ++ more) =
      (disk.walk path names).bind fun place => follow disk.root place more := by
  unfold walk
  split_ifs
  · rfl
  · rfl
  · exact follow_append ..
  · exact follow_append ..

/-- The place of a file that is to be written is what the whole path leads to, in a directory. -/
theorem target_eq_ok {disk : Disk} {path : String} {place : List String} (h : disk.target path = .ok place) :
    (∃ directory name, place = directory ++ [name] ∧ disk.root.stands? directory = some (.directory [])) ∧
      disk.root.stands? place ≠ some (.directory []) ∧ endsInSlash path = false ∧
      disk.walk path (names path) = .ok place := by
  unfold target at h
  split at h
  · cases h
  case h_2 directory hwalk =>
    split at h
    · cases h
    case h_2 name hname =>
      split at h
      · cases h
      case isFalse hproper =>
        simp only [not_or, Bool.not_eq_true] at hproper
        split at h
        · cases h
        case h_2 result hfollow =>
          split at h
          · cases h
          case h_2 hfile =>
            obtain rfl : result = place := by simpa using h
            obtain rfl := follow_name_eq_ok hproper.1 hproper.2.1 hfollow
            rw [walk_append] at hwalk
            obtain ⟨mid, hmid, hdot⟩ : ∃ mid, disk.walk path (names path).dropLast = .ok mid ∧
                follow disk.root mid ["."] = .ok directory := by
              cases hmid : disk.walk path (names path).dropLast with
              | error fault => simp [hmid, Except.bind] at hwalk
              | ok mid => exact ⟨mid, rfl, by simpa [hmid, Except.bind] using hwalk⟩
            obtain ⟨rfl, hdirectory⟩ := follow_dot_eq_ok hdot
            refine ⟨⟨mid, name, rfl, hdirectory⟩, ?_, hproper.2.2, ?_⟩
            · intro hstands
              obtain ⟨entries, hfind⟩ := Entry.stands?_eq_directory.mp hstands
              exact hfile entries hfind
            · obtain ⟨init, hnames⟩ := List.getLast?_eq_some_iff.mp hname
              rw [hnames, List.dropLast_concat] at hmid
              rw [hnames, walk_append, hmid]
              exact hfollow

/-- What stands at a path is a file, or there is nothing yet. -/
def IsPlain (disk : Disk) (path : String) : Prop :=
  ∀ place, disk.target path = .ok place →
    disk.root.find? place = none ∨ ∃ content, disk.root.find? place = some (.file content)

/-- The second disk is the first one with the content in the file at the path. -/
structure Wrote (disk after : Disk) (path : String) (content : ByteArray) (place : List String) : Prop where
  target : disk.target path = .ok place
  stands : after.root.stands? place = some (.file content)
  others : ∀ other ≠ place, after.root.stands? other = disk.root.stands? other
  read : after.read path = .ok content

theorem wrote_put {disk : Disk} {path : String} {content : ByteArray} {place : List String}
    (h : disk.target path = .ok place) :
    Wrote disk { disk with root := disk.root.put (.file content) place } path content place := by
  obtain ⟨⟨directory, name, rfl, hdirectory⟩, hfile, hslash, hwalk⟩ := target_eq_ok h
  obtain ⟨entries, hentries⟩ := Entry.stands?_eq_directory.mp hdirectory
  have hput : (disk.root.put (.file content) (directory ++ [name])).find? (directory ++ [name]) =
      some (.file content) := Entry.find?_put hentries
  have hothers : ∀ other ≠ directory ++ [name],
      (disk.root.put (.file content) (directory ++ [name])).stands? other = disk.root.stands? other :=
    fun other hother => Entry.stands?_put_of_ne hentries (by simp [Entry.outline]) hfile hother
  refine ⟨h, Entry.stands?_eq_file.mpr hput, hothers, ?_⟩
  -- A directory on the way is not what was written, so it is still there.
  have hstill : ∀ way, disk.root.stands? way = some (.directory []) →
      (disk.root.put (.file content) (directory ++ [name])).stands? way = some (.directory []) := by
    intro way hway
    rw [hothers way (fun heq => hfile (heq ▸ hway)), hway]
  have hwalk' : walk { disk with root := disk.root.put (.file content) (directory ++ [name]) } path
      (names path) = .ok (directory ++ [name]) := by
    unfold walk at hwalk ⊢
    split_ifs at hwalk ⊢ <;> exact follow_eq_ok_of_directories hstill hwalk
  rw [read, hslash, if_neg Bool.false_ne_true, hwalk']
  simp only [hput]

/-- To write a file that can be written puts the content there and nowhere else. -/
theorem wrote_of_write {disk after : Disk} {path : String} {content : ByteArray} (hplain : disk.IsPlain path)
    (h : disk.write path content = .ok after) : ∃ place, Wrote disk after path content place := by
  unfold write at h
  split at h
  · cases h
  case h_2 place htarget =>
    have hafter : after = { disk with root := disk.root.put (.file content) place } := by
      rcases hplain place htarget with hfind | ⟨old, hfind⟩ <;> simpa [hfind, eq_comm] using h
    exact ⟨place, hafter ▸ wrote_put htarget⟩

end Disk

end CommittedRegex.CommandLine
