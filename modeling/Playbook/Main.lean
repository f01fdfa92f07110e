import Playbook.Archive.Bytes
import Playbook.CommandLine
import Playbook.Shell.Run

/-!
# Playbook — the program

The program takes the files below the current directory for its disk, runs the
command line on it, and writes back what has changed.
-/

namespace Playbook

/-- Whether a text can be started as a program. -/
def looksExecutable (text : String) : Bool := Text.startsWith text "#!"

/-- The entries of a directory and below it. Files that are not
text are left alone. -/
partial def loadEntries (place : Place) (children : IO (Array IO.FS.DirEntry)) :
    IO (List (Place × Entry)) := do
  let mut entries : List (Place × Entry) := []
  for child in ← children do
    let here := place ++ [child.fileName]
    if ← child.path.isDir then
      entries :=
        (here, .directory) :: (← loadEntries here child.path.readDir) ++ entries
    else
      try
        let text ← IO.FS.readFile child.path
        entries := (here, .file (.text text) (looksExecutable text)) :: entries
      catch _ => pure ()
  return entries

/-- The text of a place. -/
def Place.path (place : Place) : String := "/" ++ Text.join "/" place

/-- Writes an entry. -/
def storeEntry (place : Place) (entry : Entry) : IO Unit := do
  match entry with
  | .directory => IO.FS.createDirAll place.path
  | .file (.text text) _ => IO.FS.writeFile place.path text
  | .file (.archive members) _ =>
    IO.FS.writeBinFile place.path ⟨(Archive.toBytes members).toArray⟩

/-- Writes back what has changed. -/
def storeChanges (before after : Disk) : IO Unit := do
  for (place, entry) in before.entries do
    match entry, after.get? place with
    | .file .., none => IO.FS.removeFile place.path
    | _, _ => pure ()
  for (place, entry) in after.entries.reverse do
    if before.get? place ≠ some entry then storeEntry place entry

/-- The environment variables that matter to a run. -/
def environment : IO (Dict String) := do
  let names := ["HOME", "TMP", "RUST_LOG", "KILN_POLL_INTERVAL",
      "KILN_WAIT_TIMEOUT", "KILN_TMP", "KILN_SHELL"]
  let values ← names.mapM fun name => do
    return (← IO.getEnv name).map fun value => (name, value)
  return values.filterMap id

/-- The surroundings of the program: its own shell, and a wait that lasts as
long as its looks. -/
def host (env : Dict String) (seconds : Int) : Host :=
  let interval := ((Settings.ofEnvironment env).1.getD {}).pollInterval
  { start := Shell.start env
    elapsed := fun look => look * interval
    horizon := 1000000
    now := { seconds, nanos := 0 } }

/-- The seconds since the beginning of 1970: the time at which a new file was
last changed. -/
def currentSeconds : IO Int := do
  let (_, path) ← IO.FS.createTempFile
  let seconds := (← path.metadata).modified.sec
  IO.FS.removeFile path
  return seconds

end Playbook

open Playbook in
def main (arguments : List String) : IO UInt32 := do
  let directory ← IO.currentDir
  let cwd := (Disk.splitPath directory.toString).1
  let disk : Disk := { entries := ← loadEntries cwd directory.readDir, cwd }
  let env ← environment
  let command := Command.parse arguments
  let result := Command.carryOut (host env (← currentSeconds)) env disk command
  IO.print result.output
  match command with
  | .run _ options =>
    if options.logFile.isNone then
      for (level, text) in result.lines do IO.eprintln s!"{level.name} {text}"
  | .misused => IO.eprint Command.helpText
  | _ => pure ()
  storeChanges disk result.world.disk
  return result.code.toUInt32
