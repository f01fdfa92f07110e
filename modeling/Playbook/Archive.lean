import Playbook.Document

/-!
# Playbook — archives of arrays

Named values are written to one archive file, each as a member `name.npy`. All
values are encoded before anything is written, and an archive takes no second
member of a name: what came before it stays in the file.
-/

namespace Playbook.Archive

/-- The members that named values make. -/
def encode : List (String × Json) → Except Failure (List (String × List UInt8))
  | [] => .ok []
  | (name, value) :: rest =>
    match Npy.encode value with
    | .error fault => .error (Cause.array name fault)
    | .ok bytes => (encode rest).map ((name ++ ".npy", bytes) :: ·)

/-- The members before the first whose name was there already, and whether there
is such a one. -/
def accept : (names : List String) → List (String × List UInt8) →
    List (String × List UInt8) × Bool
  | _, [] => ([], false)
  | names, (name, bytes) :: rest =>
    if names.contains name then ([], true)
    else
      let (members, refused) := accept (name :: names) rest
      ((name, bytes) :: members, refused)

/-- Writes an archive and returns its path. -/
def write (path : String) (arrays : List (String × Json)) : Store String := do
  let path := Path.npz path
  let members ← liftM (encode arrays)
  Store.makeParent .archiveIo path
  let (members, refused) := accept [] members
  Store.change .archiveIo (·.write path (.archive members))
  if refused then throw (Failure.of .archiveMember)
  return path

end Playbook.Archive
