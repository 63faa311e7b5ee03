/-! # Files and directories

A tree of directories with a working directory. A path is followed name by name from there, or from the
root; a slash at its end asks for a directory. -/
namespace CommittedRegex.CommandLine

inductive Entry
  | file (content : ByteArray)
  /-- A file that is empty whatever is written to it. -/
  | null
  /-- A file that is empty and takes nothing. -/
  | full
  | directory (entries : List (String × Entry))
  deriving Inhabited

/-- A tree of directories; `here` names the way from its root to the working directory. -/
structure Disk where
  root : Entry
  here : List String

inductive PathFault
  | notFound
  | notDirectory
  | isDirectory
  | nameTooLong
  deriving DecidableEq, Inhabited

def PathFault.reason : PathFault → String
  | notFound => "No such file or directory (os error 2)"
  | notDirectory => "Not a directory (os error 20)"
  | isDirectory => "Is a directory (os error 21)"
  | nameTooLong => "File name too long (os error 36)"

inductive WriteFault
  | notCreated (reason : String)
  | notWritten (reason : String)
  deriving DecidableEq, Inhabited

namespace Entry

def find? : Entry → (way : List String) → Option Entry
  | entry, [] => some entry
  | directory entries, name :: way =>
    match entries.lookup name with
    | some entry => entry.find? way
    | none => none
  | _, _ :: _ => none

/-- The entries with a name standing for something else. -/
def setEntry (name : String) (entry : Entry) (entries : List (String × Entry)) : List (String × Entry) :=
  if (entries.lookup name).isSome then
    entries.map fun old => if old.1 == name then (name, entry) else old
  else entries ++ [(name, entry)]

/-- Puts an entry where the names lead to; directories that are missing on the way are made. -/
def put (entry new : Entry) : (way : List String) → Entry
  | [] => new
  | name :: way =>
    match entry with
    | directory entries =>
      directory (setEntry name (((entries.lookup name).getD (directory [])).put new way) entries)
    | _ => entry

end Entry

namespace Disk

def longestName : Nat := 255

/-- The number of bytes at which a path is too long. -/
def longestPath : Nat := 4096

def names (path : String) : List String := (path.splitOn "/").filter (· ≠ "")

/-- The path can only lead to a directory. -/
def endsInSlash (path : String) : Bool := path.toList.getLast? = some '/'

/-- Follows names from a place; the last one need not be there. -/
def follow (root : Entry) (place : List String) : List String → Except PathFault (List String)
  | [] => .ok place
  | name :: rest =>
    match root.find? place with
    | none => .error .notFound
    | some (.directory _) =>
      if name = "." then follow root place rest
      else if name = ".." then follow root place.dropLast rest
      else if longestName < name.utf8ByteSize then .error .nameTooLong
      else follow root (place ++ [name]) rest
    | some _ => .error .notDirectory

/-- Follows the names of a path from where it starts. -/
def walk (disk : Disk) (path : String) (names : List String) : Except PathFault (List String) :=
  if path = "" then .error .notFound
  else if longestPath ≤ path.utf8ByteSize then .error .nameTooLong
  else follow disk.root (if path.toList.head? = some '/' then [] else disk.here) names

def read (disk : Disk) (path : String) : Except PathFault ByteArray :=
  match disk.walk path (if endsInSlash path then names path ++ ["."] else names path) with
  | .error fault => .error fault
  | .ok place =>
    match disk.root.find? place with
    | none => .error .notFound
    | some (.file content) => .ok content
    | some .null => .ok .empty
    | some .full => .ok .empty
    | some (.directory _) => .error .isDirectory

/-- The place of the file that is to be written at a path. It need not be there, but the directory that
it is in has to be. -/
def target (disk : Disk) (path : String) : Except PathFault (List String) :=
  match disk.walk path ((names path).dropLast ++ ["."]) with
  | .error fault => .error fault
  | .ok directory =>
    match (names path).getLast? with
    | none => .error .isDirectory
    | some name =>
      if name = "." ∨ name = ".." ∨ endsInSlash path then .error .isDirectory
      else
        match follow disk.root directory [name] with
        | .error fault => .error fault
        | .ok place =>
          match disk.root.find? place with
          | some (.directory _) => .error .isDirectory
          | _ => .ok place

def noSpace : String := "No space left on device (os error 28)"

def write (disk : Disk) (path : String) (content : ByteArray) : Except WriteFault Disk :=
  match disk.target path with
  | .error fault => .error (.notCreated fault.reason)
  | .ok place =>
    match disk.root.find? place with
    | some .null => .ok disk
    | some .full => .error (.notWritten noSpace)
    | _ => .ok { disk with root := disk.root.put (.file content) place }

def files (disk : Disk) : List (String × ByteArray) :=
  match disk.root.find? disk.here with
  | some (.directory entries) => entries.filterMap fun entry =>
    match entry.2 with
    | .file content => some (entry.1, content)
    | _ => none
  | _ => []

end Disk

end CommittedRegex.CommandLine
