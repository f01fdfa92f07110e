import Playbook.Disk
import Playbook.Json.Printer
import Playbook.Path
import Playbook.Yaml.Reader

/-!
# Playbook — documents on disk

A document whose path ends in `.json` is JSON text, every other document is
block text, in which JSON text is allowed too. Documents are always written as
indented JSON, under a path that ends in `.json`.

`Store` is the monad of operations on the disk; what an operation did before it
failed stays done.
-/

namespace Playbook

/-- Operations on the disk. -/
abbrev Store := ExceptT Failure (StateM Disk)

namespace Store

/-- Makes a change that may fail, with the cause that `cause` gives it. What was
changed before it failed stays changed. -/
def change (cause : IoKind → Cause) (f : Disk → Disk.Change) :
    Store Unit := fun disk =>
  match f disk with
  | (.ok (), disk) => (.ok (), disk)
  | (.error kind, disk) => (.error (cause kind), disk)

/-- Puts the failures of an operation into a frame. -/
def within {α : Type} (frame : Frame) (body : Store α) : Store α := fun disk =>
  let (result, disk) := body.run disk
  (result.mapError (Failure.within frame), disk)

/-- Creates a directory and all that lead to it. -/
def makeDirectories (path : String) : Store Unit :=
  change .io (·.makeDirectories path)

/-- Creates the directory that a file is to be in. -/
def makeParent (cause : IoKind → Cause) (path : String) : Store Unit :=
  match Path.parent? path with
  | none | some "" => pure ()
  | some parent => change cause (·.makeDirectories parent)

end Store

namespace Document

/-- Decodes the text of a document. -/
def decode {α : Type} (read : Draft → Except Fault α) (path text : String) :
    Except Failure α :=
  if Path.isJson path then
    let (draft, atEnd) := Draft.ofJsonText text
    match read draft with
    | .error fault => .error (Cause.documentJson path fault)
    | .ok value => if atEnd then .ok value
      else .error (Cause.documentJson path .malformed)
  else
    match (Yaml.read text).map read with
    | some (.ok value) => .ok value
    | some (.error _) | none => .error (Cause.documentYaml path)

/-- Reads the document at a path. -/
def read {α : Type} (decoder : Draft → Except Fault α) (path : String)
    (disk : Disk) : Except Failure α :=
  match disk.readText path with
  | .error kind => .error (Cause.documentIo path kind)
  | .ok text => decode decoder path text

/-- Writes a document and returns its path. -/
def write (path : String) (value : Json) : Store String := do
  let path := Path.json path
  Store.makeParent (.documentIo path) path
  Store.change (.documentIo path) (·.write path (.text value.pretty))
  return path

end Document

end Playbook
