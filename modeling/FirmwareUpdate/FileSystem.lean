/-
Files and directories, and the reading and writing of files by path.  A path is
followed name by name, from the root or from the home directory; only its last
name may be missing, and only when a file is written.
-/
import FirmwareUpdate.Bytes

namespace FirmwareUpdate

/-- What the system reports when a file cannot be read or written. -/
inductive FileError
  | system (code : Nat) (text : String)
  | nulInName
deriving DecidableEq, Repr

namespace FileError

/-- There is nothing at the path. -/
def notFound : FileError := system 2 "No such file or directory"

/-- No memory holds what is read. -/
def outOfMemory : FileError := system 12 "Cannot allocate memory"

/-- A name on the way is not that of a directory. -/
def notDirectory : FileError := system 20 "Not a directory"

/-- The path leads to a directory where a file is needed. -/
def isDirectory : FileError := system 21 "Is a directory"

/-- The device takes no more bytes. -/
def noSpace : FileError := system 28 "No space left on device"

/-- A name or the whole path has too many bytes. -/
def nameTooLong : FileError := system 36 "File name too long"

/-- The sentence shown for an error. -/
def message : FileError → String
  | system code text => text ++ " (os error " ++ toString code ++ ")"
  | nulInName => "file name contained an unexpected NUL byte"

end FileError

/-- The names on the way from the root to a file or directory. -/
abbrev Place := List String

/-- What stands at a place.  The null device is empty and swallows what is written
to it; the full device has no end and takes nothing. -/
inductive Entry
  | file (content : Bytes)
  | directory
  | null
  | full
deriving DecidableEq, Repr

/-- What there is, by place, and the home directory, where relative paths start.
The root has no entry of its own. -/
structure FileSystem where
  entries : List (Place × Entry)
  home : Place := []
deriving DecidableEq, Repr

namespace FileSystem

/-- What stands at a place. -/
def find? (fs : FileSystem) (place : Place) : Option Entry :=
  if place = [] then some .directory else fs.entries.lookup place

/-- Put an entry at a place, over the one that stands there. -/
def insert (fs : FileSystem) (place : Place) (entry : Entry) : FileSystem :=
  { fs with entries := (place, entry) :: fs.entries.filter fun e => e.1 != place }

@[simp] theorem find?_root (fs : FileSystem) : fs.find? [] = some .directory := rfl

@[simp] theorem home_insert (fs : FileSystem) (place : Place) (entry : Entry) :
    (fs.insert place entry).home = fs.home := rfl

/-- What was put at a place stands there. -/
theorem find?_insert_self (fs : FileSystem) (place : Place) (entry : Entry) (h : place ≠ []) :
    (fs.insert place entry).find? place = some entry := by
  simp [find?, insert, h]

/-- What stands elsewhere is not touched. -/
theorem find?_insert_of_ne (fs : FileSystem) {place other : Place} (entry : Entry)
    (h : other ≠ place) : (fs.insert place entry).find? other = fs.find? other := by
  have hfilter : (fs.entries.filter fun e => e.1 != place).lookup other
      = fs.entries.lookup other := by
    induction fs.entries with
    | nil => rfl
    | cons e rest ih =>
        obtain ⟨key, stored⟩ := e
        by_cases hkey : key = place
        · subst hkey
          have hne : (other == key) = false := by simpa using h
          simp [List.lookup_cons, hne, ih]
        · by_cases ho : other = key
          · subst ho
            simp [hkey]
          · have hne : (other == key) = false := by simpa using ho
            simp [List.lookup_cons, hkey, hne, ih]
  have hne : (other == place) = false := by simpa using h
  simp only [find?, insert, List.lookup_cons, hne, hfilter]

/-- The longest name in bytes. -/
def maxName : Nat := 255

/-- The longest path in bytes. -/
def maxPath : Nat := 4095

/-- Follow one name from a place, which must be a directory: an empty name or a
single dot stays there, two dots go up; above the root there is only the root. -/
def follow (fs : FileSystem) (place : Place) (name : String) : Except FileError Place :=
  match fs.find? place with
  | none => .error .notFound
  | some .directory =>
      if name = "" ∨ name = "." then .ok place
      else if name = ".." then .ok place.dropLast
      else if maxName < name.utf8ByteSize then .error .nameTooLong
      else .ok (place ++ [name])
  | some _ => .error .notDirectory

/-- Follow names in order. -/
def walk (fs : FileSystem) (place : Place) : List String → Except FileError Place
  | [] => .ok place
  | name :: rest =>
      match fs.follow place name with
      | .error e => .error e
      | .ok next => fs.walk next rest

/-- The names of a path, or the reason why it is none. -/
def names (path : String) : Except FileError (List String) :=
  if path.toList.contains (Char.ofNat 0) then .error .nulInName
  else if path = "" then .error .notFound
  else if maxPath < path.utf8ByteSize then .error .nameTooLong
  else .ok (path.splitOn "/")

/-- The place that a path starts from: a slash in front stands for the root. -/
def origin (fs : FileSystem) (path : String) : Place :=
  if path.startsWith "/" then [] else fs.home

/-- The place that a path leads to, for reading. -/
def source (fs : FileSystem) (path : String) : Except FileError Place :=
  match names path with
  | .error e => .error e
  | .ok names => fs.walk (fs.origin path) names

/-- The content of the file at a path. -/
def read (fs : FileSystem) (path : String) : Except FileError Bytes :=
  match fs.source path with
  | .error e => .error e
  | .ok place =>
      match fs.find? place with
      | none => .error .notFound
      | some .directory => .error .isDirectory
      | some .null => .ok []
      | some .full => .error .outOfMemory
      | some (.file content) => .ok content

/-- The place that a path leads to, for writing.  The directory of the last name
must be there, which following the empty name makes sure of.  A slash behind the
last name makes it that of a directory. -/
def target (fs : FileSystem) (path : String) : Except FileError Place :=
  match names path with
  | .error e => .error e
  | .ok names =>
      let named := (names.reverse.dropWhile (· = "")).reverse
      match fs.walk (fs.origin path) (named.dropLast ++ [""]) with
      | .error e => .error e
      | .ok parent =>
          if named.length < names.length then .error .isDirectory
          else fs.walk parent (named.drop (named.length - 1))

/-- Write a file: replace the content of the one at the path, or make a new one in
a directory that is there. -/
def write (fs : FileSystem) (path : String) (content : Bytes) : Except FileError FileSystem :=
  match fs.target path with
  | .error e => .error e
  | .ok place =>
      match fs.find? place with
      | some .directory => .error .isDirectory
      | some .null => .ok fs
      | some .full => if content = [] then .ok fs else .error .noSpace
      | _ => .ok (fs.insert place (.file content))

/-- The entries of the home directory, by name. -/
def listing (fs : FileSystem) : List (String × Entry) :=
  fs.entries.filterMap fun e =>
    match e.1.getLast? with
    | none => none
    | some name => if e.1 = fs.home ++ [name] then some (name, e.2) else none

end FileSystem

end FirmwareUpdate
