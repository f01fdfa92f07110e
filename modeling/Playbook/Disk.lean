import Playbook.Dict
import Playbook.Failure
import Playbook.Path

/-!
# Playbook — the disk

What the engine and its jobs leave on disk is part of what they do, so the disk
is a value: a set of places, each a directory or a file. A place is the list of
names that leads to it from the root. The engine works in a directory of the
disk, and relative paths start there.

A path text is resolved name by name: every name but the last has to lead to a
directory, `..` leads back, and a path that ends in a slash or `.` means a
directory. There are no links: every file has one place.

Whatever the paths, the device may refuse a change, or break off in the middle
of a file. So an operation that changes the disk gives the disk that it left
also where it fails.
-/

namespace Playbook

/-- What a file holds. -/
inductive Content where
  | text (s : String)
  /-- An archive of named members, in order. -/
  | archive (members : List (String × List UInt8))
deriving DecidableEq, Inhabited, Repr

/-- What stands at a place. -/
inductive Entry where
  | directory
  | file (content : Content) (executable : Bool)
deriving DecidableEq, Inhabited, Repr

/-- The names that lead to a file or directory from the root. -/
abbrev Place := List String

/-- What goes wrong although the path is right: a device that is full, read-only
or failing. By default nothing does. -/
structure Device where
  /-- Why writing to a place breaks off, given what stands where, and what the
  file holds then, unless it is as it was. -/
  write : List (Place × Entry) → Place → Content →
      Option (IoKind × Option Content) :=
    fun _ _ _ => none
  /-- Why the file at a place cannot be removed. -/
  remove : Place → Option IoKind := fun _ => none
  /-- Why no directory can be created at a place. -/
  create : List (Place × Entry) → Place → Option IoKind := fun _ _ => none
deriving Inhabited

/-- The entries at their places. The working directory is always there. -/
structure Disk where
  entries : List (Place × Entry)
  /-- The working directory. -/
  cwd : Place := []
  device : Device := {}
deriving Inhabited

namespace Disk

def empty : Disk := { entries := [] }

/-- How a change of the disk ended, and the disk that it left. -/
abbrev Change := Except IoKind Unit × Disk

/-- The entry at a place in a list of entries. -/
def find : List (Place × Entry) → Place → Option Entry
  | [], _ => none
  | (p, e) :: rest, place => if p = place then some e else find rest place

/-- What stands at a place. -/
def get? (d : Disk) (place : Place) : Option Entry :=
  if place <+: d.cwd then some .directory else find d.entries place

/-- Puts an entry at a place. -/
def put (d : Disk) (place : Place) (entry : Entry) : Disk :=
  { d with entries := (place, entry) :: d.entries.filter (·.1 ≠ place) }

/-- Clears a place. -/
def clear (d : Disk) (place : Place) : Disk :=
  { d with entries := d.entries.filter (·.1 ≠ place) }

/-- Whether a name is longer than file systems take. -/
def isLong (name : String) : Bool := name.utf8ByteSize > 255

/-- Follows one name from a directory. The root leads back to itself. -/
def enter (d : Disk) (place : Place) (name : String) : Except IoKind Place :=
  if name = ".." then .ok place.dropLast
  else if isLong name then .error .invalidFilename
  else match d.get? (place ++ [name]) with
    | none => .error .notFound
    | some (.file ..) => .error .notADirectory
    | some .directory => .ok (place ++ [name])

/-- A path text as names, and whether it can only mean a directory. -/
def splitPath (path : String) : List String × Bool :=
  let names := (Text.pieces '/' path.toList).map String.ofList
  (names.filter (fun n => n ≠ "" ∧ n ≠ "."),
    names.getLast? == some "" || names.getLast? == some ".")

/-- Where a path starts: at the root if it begins with a slash. -/
def base (d : Disk) (path : String) : Place :=
  if Path.isAbsolute path then [] else d.cwd

/-- A path that no file system takes. -/
def refuse? (path : String) : Option IoKind :=
  if path.toList.contains '\x00' then some .invalidInput
  else if path.isEmpty then some .notFound
  else none

/-- The place a path leads to, whether or not something is there, and whether it
has to be a directory. -/
def locate (d : Disk) (path : String) : Except IoKind (Place × Bool) :=
  let (names, isDir) := splitPath path
  match refuse? path with
  | some kind => .error kind
  | none =>
    match names.getLast? with
    | none => .ok (d.base path, true)
    | some last => do
      -- every name but the last has to lead into a directory that is there
      let dir ← names.dropLast.foldlM d.enter (d.base path)
      if last = ".." then return (dir.dropLast, true)
      else if isLong last then .error .invalidFilename
      else return (dir ++ [last], isDir)

/-- What a path leads to. -/
def lookup (d : Disk) (path : String) : Except IoKind (Place × Entry) := do
  let (place, isDir) ← d.locate path
  match d.get? place with
  | none => .error .notFound
  | some (.file content executable) =>
    if isDir then .error .notADirectory
      else return (place, .file content executable)
  | some .directory => return (place, .directory)

/-- Whether a path leads to a file. -/
def isFile (d : Disk) (path : String) : Bool :=
  match d.lookup path with
  | .ok (_, .file ..) => true
  | _ => false

/-- Whether a path leads to a directory. -/
def isDirectory (d : Disk) (path : String) : Bool :=
  match d.lookup path with
  | .ok (_, .directory) => true
  | _ => false

/-- What the file at a path holds. -/
def read (d : Disk) (path : String) : Except IoKind Content := do
  match ← d.lookup path with
  | (_, .file content _) => return content
  | (_, .directory) => .error .isADirectory

/-- The text of the file at a path. -/
def readText (d : Disk) (path : String) : Except IoKind String := do
  match ← d.read path with
  | .text s => return s
  | .archive _ => .error .invalidData

/-- Whether a path ends in a `.` component, so that it can only mean a directory
that is there. -/
def endsInDot (path : String) : Bool :=
  match path.toList.reverse.dropWhile (· == '/') with
  | ['.'] | '.' :: '/' :: _ => true
  | _ => false

/-- The place of the file that is written at a path, and whether
it is executable. -/
def target (d : Disk) (path : String) : Except IoKind (Place × Bool) := do
  let (place, isDir) ← d.locate path
  match d.get? place with
  | some .directory => .error .isADirectory
  | some (.file _ executable) =>
    if isDir then .error .notADirectory else return (place, executable)
  | none =>
    if endsInDot path then .error .notFound
    -- a file cannot be made where the path says directory
    else if isDir then .error .isADirectory
    else return (place, false)

/-- Creates or replaces the file at a path. A file that is replaced stays executable
if it was. Writing that breaks off may have emptied or begun the file. -/
def write (d : Disk) (path : String) (content : Content) : Change :=
  match d.target path with
  | .error kind => (.error kind, d)
  | .ok (place, executable) =>
    match d.device.write d.entries place content with
    | none => (.ok (), d.put place (.file content executable))
    | some (kind, none) => (.error kind, d)
    | some (kind, some left) => (.error kind, d.put place (.file left executable))

/-- Removes the file at a path. -/
def remove (d : Disk) (path : String) : Change :=
  match d.lookup path with
  | .error kind => (.error kind, d)
  | .ok (_, .directory) => (.error .isADirectory, d)
  | .ok (place, .file ..) =>
    match d.device.remove place with
    | some kind => (.error kind, d)
    | none => (.ok (), d.clear place)

/-- Removes the file at a path if there is one that can be removed. -/
def removeQuietly (d : Disk) (path : String) : Disk := (d.remove path).2

/-- Creates the directory at a free place. -/
def create (d : Disk) (place : Place) : Change :=
  match d.device.create d.entries place with
  | some kind => (.error kind, d)
  | none => (.ok (), d.put place .directory)

/-- Creates one directory. -/
def makeDirectory (d : Disk) (path : String) : Change :=
  match d.locate path with
  | .error kind => (.error kind, d)
  | .ok (place, _) =>
    match d.get? place with
    | some _ => (.error .alreadyExists, d)
    | none => d.create place

/-- Creates the directories along a list of names, as far as they are missing.
Those before one that cannot be created stay. -/
def ensure (d : Disk) (place : Place) : List String → Change
  | [] => (.ok (), d)
  | name :: rest =>
    if name = ".." then d.ensure place.dropLast rest
    else if isLong name then (.error .invalidFilename, d)
    else
      let next := place ++ [name]
      match d.get? next with
      | some .directory => d.ensure next rest
      -- a file stands where the last directory should be, or on the way to it
      | some (.file ..) =>
        (.error (if rest.isEmpty then .alreadyExists else .notADirectory), d)
      | none =>
        match d.create next with
        | (.error kind, d) => (.error kind, d)
        | (.ok (), d) => d.ensure next rest

/-- Creates the directory at a path and all that lead to it. Of a path that ends
in `.` only the directories before the last are created. -/
def makeDirectories (d : Disk) (path : String) : Change :=
  if path.isEmpty then (.ok (), d)
  else
    match refuse? path with
    | some kind => (.error kind, d)
    | none =>
      let names := (splitPath path).1
      if endsInDot path then
        match d.lookup path with
        | .ok _ => (.ok (), d)
        | .error .notFound =>
          match d.ensure (d.base path) names.dropLast with
          | (.error kind, d) => (.error kind, d)
          | (.ok (), d) => ((d.lookup path).map fun _ => (), d)
        | .error kind => (.error kind, d)
      else d.ensure (d.base path) names

/-- Marks the file at a path as a program. -/
def setExecutable (d : Disk) (path : String) (executable : Bool) : Disk :=
  match d.lookup path with
  | .ok (place, .file content _) => d.put place (.file content executable)
  | _ => d

/-- The files and directories below the working directory, with their
places from there. -/
def listing (d : Disk) : List (Place × Entry) :=
  (d.entries.filter fun (place, _) => d.cwd <+: place).map fun (place, entry) =>
    (place.drop d.cwd.length, entry)

end Disk

end Playbook
